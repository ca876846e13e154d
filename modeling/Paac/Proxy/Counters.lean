import Paac.Library.Triple
import Paac.Proxy.Routes
import Paac.Proxy.Turns

set_option autoImplicit false

/-!
# The counters of the proxy

A check is counted before the engine is asked and its verdict after, so an error in between leaves a
check that is neither an allow nor a deny. The call to the upstream is counted whether or not there
was a prompt to check.

`Counts n u` says how many checks are without a verdict and how many calls were made to the
upstream. It is kept by the parts of a handler: a check opens one and settles it, unless the engine
fails, and then the handler has ended. Whether a request settles what it counts is a condition on
the request, the reply and the readings, which can be told before it runs: the engine comes to a
decision on each check that the request comes to, and a chat of a resolved caller has a prompt.

## Main results

- `check_counts`, `filterToolCall_counts`: one check is open between its two counts.
- `checkPrompt_counts`, `filterReply_counts`, `checkRoute_counts`, `chat_counts`: what each request
  leaves open, which is nothing exactly when its checks are decided.
- `run_unsettled`, `run_upstream`: the same of any counting request.
- `afterCalls_counts`: the same of a sequence of requests, by induction.
- `balanced_iff`: after which sequences of requests the counters balance.
- `counters_unbalanced`: a failed check and a chat without a prompt upset them.
-/

namespace Paac

open Cedar (Engine)

/-- The checks that were counted without a verdict. -/
def Metrics.unsettled (m : Metrics) : Int := m.checksTotal - m.allowsTotal - m.deniesTotal

/-- The proxy when it starts: nothing has been counted. -/
def World.start (tick : Nat) (cache : IdentityCache) : World := ⟨tick, cache, ⟨0, 0, 0, 0⟩⟩

/-- A request to one of the counting endpoints. -/
inductive CountingCall where
  | check (req : AuthzRequest)
  | chat (headers : HeaderMap) (body : ChatCompletionRequest)

section

variable {E : Engine} (env : ProxyEnv E) (st : AppState)

/-- The text that the prompt check looks at. -/
def ChatCompletionRequest.utterance (body : ChatCompletionRequest) : String :=
  (lastUserText body.messages).getD ""

/-- The proxy after a request, whether it ended in an answer or in an error. -/
def CountingCall.run (w : World) : CountingCall → World
  | .check req => (checkRoute env st req w).state
  | .chat headers body => (chatCompletions env st headers body w).state

/-- The prompt check of the request adds to the allows. -/
def CountingCall.countsAllow (w : World) : CountingCall → Bool
  | .check _ => false
  | .chat headers body =>
      match resolve env st headers w with
      | ⟨.ok p, w₁, _⟩ =>
          w₁.metrics.allowsTotal <
            (checkPrompt env st p body.utterance w₁).state.metrics.allowsTotal
      | ⟨.error _, _, _⟩ => false

/-- The proxy after a sequence of requests. -/
def afterCalls : List CountingCall → World → World
  | [], w => w
  | c :: cs, w => afterCalls cs (c.run env st w)

/-- The requests of the sequence whose prompt check was counted as an allow. -/
def countedAllows : List CountingCall → World → Nat
  | [], _ => 0
  | c :: cs, w => (c.countsAllow env st w).toNat + countedAllows cs (c.run env st w)

/-- After the sequence every counted check has its verdict, and no call to the upstream was made
without a prompt that was counted as an allow. -/
def Balanced (calls : List CountingCall) (w : World) : Prop :=
  let m := (afterCalls env st calls w).metrics
  m.checksTotal = m.allowsTotal + m.deniesTotal ∧ m.upstreamCalls ≤ countedAllows env st calls w

/-! ## When a request settles what it counts -/

/-- The engine decides on the request at the reading. -/
def DecidesAt (n : Nat) (req : AuthzRequest) : Prop :=
  ∃ d, st.engine.decide (env.bundle n) (env.fresh n) req = .ok d

/-- The prompt is not checked, or the engine decides on it. -/
def PromptDecided (p : Principal) (text : String) (n : Nat) : Prop :=
  text ≠ "" → ∀ req, promptRequest env.captures st.engine.catalog p text = .ok req →
    DecidesAt env st n req

/-- The prompt is let through. -/
def PromptPasses (p : Principal) (text : String) (n : Nat) : Prop :=
  text = "" ∨ PromptAllowed env st (env.bundle n) p text

/-- The reading at which the body is sent when its prompt was due at `n`. -/
def sendTick (text : String) (n : Nat) : Nat := if text = "" then n else n + 1

/-- The engine decides on every tool call of the reply, unless the reply is streamed. -/
def ReplyDecided (p : Principal) (body : ChatCompletionRequest) (n : Nat) : Prop :=
  body.stream ≠ some true → ∀ reply json, env.upstream n body = .ok reply →
    env.readJson reply.text = .ok json →
      AllDecided env st p (turns env st p (replyCalls json) (n + 1))

/-- The engine decides on every check that the request comes to. -/
def CountingCall.Decided (w : World) : CountingCall → Prop
  | .check req => DecidesAt env st w.tick req
  | .chat headers body => ∀ p, (resolve env st headers w).result = .ok p →
      PromptDecided env st p body.utterance (w.tick + 1) ∧
        (PromptPasses env st p body.utterance (w.tick + 1) →
          ReplyDecided env st p body (sendTick body.utterance (w.tick + 1)))

/-- A chat request of a resolved principal has a prompt to check. -/
def CountingCall.HasPrompt (w : World) : CountingCall → Prop
  | .check _ => True
  | .chat headers body =>
      ∀ p, (resolve env st headers w).result = .ok p → body.utterance ≠ ""

/-- At every request of the sequence the engine decides, and every chat request has a prompt. -/
def EverySettled : List CountingCall → World → Prop
  | [], _ => True
  | c :: cs, w => (c.Decided env st w ∧ c.HasPrompt env st w) ∧ EverySettled cs (c.run env st w)

variable {env st}

/-! ## One check -/

/-- The counters show so many checks without a verdict, and so many calls to the upstream. -/
def Counts (n : Int) (u : Nat) (w : World) : Prop :=
  w.metrics.unsettled = n ∧ w.metrics.upstreamCalls = u

/-- The counters show one check more without a verdict unless `P` holds. -/
def CountsIf (P : Prop) (n : Int) (u : Nat) (w : World) : Prop :=
  (P → Counts n u w) ∧ (¬P → Counts (n + 1) u w)

variable {n : Int} {u : Nat}

theorem CountsIf.of {P : Prop} (hP : P) {w : World} (hw : Counts n u w) : CountsIf P n u w :=
  ⟨fun _ => hw, fun h => absurd hP h⟩

theorem CountsIf.unsettled {P : Prop} {w : World} (h : CountsIf P n u w) :
    ∃ k : Nat, w.metrics.unsettled = n + k ∧ (k = 0 ↔ P) := by
  by_cases hP : P
  · exact ⟨0, by rw [(h.1 hP).1, Nat.cast_zero, add_zero], iff_of_true rfl hP⟩
  · exact ⟨1, (h.2 hP).1, iff_of_false one_ne_zero hP⟩

theorem CountsIf.upstream {P : Prop} {w : World} (h : CountsIf P n u w) :
    w.metrics.upstreamCalls = u := by
  by_cases hP : P
  · exact (h.1 hP).2
  · exact (h.2 hP).2

theorem CountsIf.of_not {P : Prop} (hP : ¬P) {w : World} (hw : Counts (n + 1) u w) :
    CountsIf P n u w := ⟨fun h => absurd h hP, fun _ => hw⟩

theorem counts_checked {w : World} (h : Counts n u w) :
    Counts (n + 1) u { w with metrics := { w.metrics with checksTotal := w.metrics.checksTotal + 1 } } := by
  obtain ⟨rfl, rfl⟩ := h
  refine ⟨?_, rfl⟩
  simp only [Metrics.unsettled]
  omega

theorem counts_allowed {w : World} (h : Counts (n + 1) u w) :
    Counts n u { w with metrics := { w.metrics with allowsTotal := w.metrics.allowsTotal + 1 } } := by
  obtain ⟨hn, rfl⟩ := h
  refine ⟨?_, rfl⟩
  simp only [Metrics.unsettled] at hn ⊢
  omega

theorem counts_denied {w : World} (h : Counts (n + 1) u w) :
    Counts n u { w with metrics := { w.metrics with deniesTotal := w.metrics.deniesTotal + 1 } } := by
  obtain ⟨hn, rfl⟩ := h
  refine ⟨?_, rfl⟩
  simp only [Metrics.unsettled] at hn ⊢
  omega

/-- The engine changes no counter. -/
theorem check_counts (req : AuthzRequest) :
    Eff.Triple (Counts (n + 1) u) (st.engine.check env req) (fun _ => Counts (n + 1) u)
      (Counts (n + 1) u) :=
  fun _ hw => ⟨fun _ _ => hw, fun _ _ => hw⟩

theorem countAllow_counts {R : World → Prop} :
    Eff.Triple (Counts (n + 1) u)
      (Handler.count fun m => { m with allowsTotal := m.allowsTotal + 1 })
      (fun _ => Counts n u) R :=
  Eff.triple_modify _ fun _ => counts_allowed

theorem countDeny_counts {R : World → Prop} :
    Eff.Triple (Counts (n + 1) u)
      (Handler.count fun m => { m with deniesTotal := m.deniesTotal + 1 })
      (fun _ => Counts n u) R :=
  Eff.triple_modify _ fun _ => counts_denied

theorem countCheck_counts {R : World → Prop} :
    Eff.Triple (Counts n u)
      (Handler.count fun m => { m with checksTotal := m.checksTotal + 1 })
      (fun _ => Counts (n + 1) u) R :=
  Eff.triple_modify _ fun _ => counts_checked

/-! ## The filter of a reply -/

/-- Executing a call counts nothing. -/
theorem executeAllowed_counts (tc : Json) {R : World → Prop} :
    Eff.Triple (Counts n u) (executeAllowed env st tc) (fun _ => Counts n u) R := by
  intro w hw
  have hok := executeAllowed_ok env st tc w
  refine ⟨fun _ _ => ?_, fun e he => ?_⟩
  · rw [executeAllowed_run]
    split
    · exact hw
    · exact hw
  · rw [hok] at he
    cases he

/-- A call settles its check, unless the check fails. -/
theorem filterToolCall_counts (p : Principal) (tc : Json) :
    Eff.Triple (Counts n u) (filterToolCall env st p tc) (fun _ => Counts n u)
      (Counts (n + 1) u) := by
  apply countCheck_counts.bind
  intro _
  apply (check_counts _).bind
  intro d
  split
  · apply countAllow_counts.bind
    intro _
    apply (executeAllowed_counts tc).bind
    exact fun _ => Eff.triple_pure _ fun _ => id
  · apply countDeny_counts.bind
    exact fun _ => Eff.triple_pure _ fun _ => id

/-- The calls of a choice settle their checks unless one of them fails. -/
theorem filterEach_counts (p : Principal) (tcs : List Json) :
    Eff.Triple (Counts n u) (filterEach env st p tcs) (fun _ => Counts n u) (Counts (n + 1) u) := by
  induction tcs with
  | nil => exact Eff.triple_pure _ fun _ => id
  | cons tc tcs ih =>
      apply (filterToolCall_counts p tc).bind
      intro _
      apply ih.bind
      exact fun _ => Eff.triple_pure _ fun _ => id

/-- The calls of a choice settle their checks in its place. -/
theorem filterChoice_counts (p : Principal) (choice : Json) :
    Eff.Triple (Counts n u) (filterChoice env st p choice) (fun _ => Counts n u)
      (Counts (n + 1) u) := by
  unfold filterChoice
  split
  · exact Eff.triple_pure _ fun _ => id
  · split
    · exact Eff.triple_pure _ fun _ => id
    · apply Eff.Triple.bind (Q := fun _ => Counts n u)
      · unfold filterToolCalls
        split
        · exact filterEach_counts p _
        · exact Eff.triple_pure _ fun _ => id
      · exact fun _ => Eff.triple_pure _ fun _ => id

/-- The calls of a reply settle their checks. -/
theorem filterReply_settles (p : Principal) (reply : Json) :
    Eff.Triple (Counts n u) (filterReply env st p reply) (fun _ => Counts n u)
      (Counts (n + 1) u) := by
  have hchoices : ∀ choices, Eff.Triple (Counts n u) (filterChoices env st p choices)
      (fun _ => Counts n u) (Counts (n + 1) u) := by
    intro choices
    induction choices with
    | nil => exact Eff.triple_pure _ fun _ => id
    | cons choice choices ih =>
        apply (filterChoice_counts p choice).bind
        intro _
        apply ih.bind
        exact fun _ => Eff.triple_pure _ fun _ => id
  unfold filterReply
  split
  · apply (hchoices _).bind
    exact fun _ => Eff.triple_pure _ fun _ => id
  · exact Eff.triple_pure _ fun _ => id

/-- The filter leaves one check without a verdict exactly when the engine fails on a call. -/
theorem filterReply_counts (p : Principal) (reply : Json) {w : World} (hw : Counts n u w) :
    CountsIf (AllDecided env st p (turns env st p (replyCalls reply) w.tick)) n u
      (filterReply env st p reply w).state := by
  have hfollows := @filterReply_follows _ env st p reply w
  obtain ⟨hok, herror⟩ := filterReply_settles p reply w hw
  constructor
  · intro hall
    obtain ⟨hresult, -⟩ := hfollows.decided hall
    exact hok _ hresult
  · intro hnot
    obtain ⟨e, he⟩ := hfollows.failed hnot
    exact herror e he

/-! ## The prompt -/

/-- The world after a reading and a change of the counters. -/
def World.counted (w : World) (f : Metrics → Metrics) : World :=
  { w with tick := w.tick + 1, metrics := f w.metrics }

/-- A prompt with a request that the engine decides on: the verdict is counted, and the check passes
when it allows. -/
theorem checkPrompt_verdict {p : Principal} {text : String} {w : World} (hne : text ≠ "")
    {req : AuthzRequest} (hreq : promptRequest env.captures st.engine.catalog p text = .ok req)
    {d : AuthzDecision}
    (hd : st.engine.decide (env.bundle w.tick) (env.fresh w.tick) req = .ok d) :
    (checkPrompt env st p text w).state =
      w.counted fun m =>
        if d.effect = .allow then
          { m with checksTotal := m.checksTotal + 1, allowsTotal := m.allowsTotal + 1 }
        else { m with checksTotal := m.checksTotal + 1, deniesTotal := m.deniesTotal + 1 } := by
  have hempty : ¬text.isEmpty = true := by rwa [String.isEmpty_iff]
  have hcheck := fun m : Metrics => @check_ok _ env st.engine req { w with metrics := m } d hd
  rw [checkPrompt, if_neg hempty, hreq, Eff.bind_ok (a := req) rfl, Eff.lift_apply, count_bind,
    Eff.bind_ok (congrArg Outcome.result (hcheck _)), hcheck]
  by_cases hallow : d.effect = .allow
  · rw [if_pos hallow]
    simp only [World.counted, if_pos hallow]
    rfl
  · rw [if_neg hallow]
    simp only [World.counted, if_neg hallow]
    rfl

/-- A prompt with a request that the engine fails on leaves a check without a verdict. -/
theorem checkPrompt_unsettled {p : Principal} {text : String} {w : World} (hne : text ≠ "")
    {req : AuthzRequest} (hreq : promptRequest env.captures st.engine.catalog p text = .ok req)
    (hnot : ¬DecidesAt env st w.tick req) :
    (checkPrompt env st p text w).state =
      w.counted fun m => { m with checksTotal := m.checksTotal + 1 } := by
  have hempty : ¬text.isEmpty = true := by rwa [String.isEmpty_iff]
  cases hd : st.engine.decide (env.bundle w.tick) (env.fresh w.tick) req with
  | ok d => exact absurd ⟨d, hd⟩ hnot
  | error e =>
      have hcheck := fun m : Metrics => @check_error _ env st.engine req { w with metrics := m } e hd
      rw [checkPrompt, if_neg hempty, hreq, Eff.bind_ok (a := req) rfl, Eff.lift_apply, count_bind,
        Eff.bind_error (congrArg Outcome.result (hcheck _)), hcheck]
      rfl

/-- A prompt without a request is not counted. -/
theorem checkPrompt_unbound {p : Principal} {text : String} {w : World} (hne : text ≠ "")
    (hnone : ∀ req, promptRequest env.captures st.engine.catalog p text ≠ .ok req) :
    (checkPrompt env st p text w).state = w := by
  have hempty : ¬text.isEmpty = true := by rwa [String.isEmpty_iff]
  cases hreq : promptRequest env.captures st.engine.catalog p text with
  | ok req => exact absurd hreq (hnone req)
  | error e =>
      rw [checkPrompt, if_neg hempty, hreq, Eff.bind_error (e := .error (.badRequest e.toText)) rfl]
      rfl

/-- The prompt check leaves one check without a verdict exactly when the engine fails on it. -/
theorem checkPrompt_counts (p : Principal) (text : String) {w : World} (hw : Counts n u w) :
    CountsIf (PromptDecided env st p text w.tick) n u (checkPrompt env st p text w).state := by
  by_cases hne : text = ""
  · subst hne
    exact CountsIf.of (fun h => absurd rfl h) hw
  · by_cases hbound : ∃ req, promptRequest env.captures st.engine.catalog p text = .ok req
    · obtain ⟨req, hreq⟩ := hbound
      by_cases hdecides : DecidesAt env st w.tick req
      · have hdecided : PromptDecided env st p text w.tick := by
          intro _ req' hreq'
          obtain rfl := Except.ok.inj (hreq.symm.trans hreq')
          exact hdecides
        obtain ⟨d, hd⟩ := hdecides
        apply CountsIf.of hdecided
        rw [checkPrompt_verdict hne hreq hd]
        -- the verdict settles the check, whichever it is
        by_cases hallow : d.effect = .allow
        · simp only [World.counted, if_pos hallow]
          exact counts_allowed (counts_checked hw)
        · simp only [World.counted, if_neg hallow]
          exact counts_denied (counts_checked hw)
      · apply CountsIf.of_not fun h => hdecides (h hne req hreq)
        rw [checkPrompt_unsettled hne hreq hdecides]
        exact counts_checked hw
    · have hnone := not_exists.1 hbound
      apply CountsIf.of fun _ req hreq => absurd hreq (hnone req)
      rw [checkPrompt_unbound hne hnone]
      exact hw

/-- The prompt check adds to the allows exactly when it passes on a text that is not empty. -/
theorem checkPrompt_allows (p : Principal) (text : String) (w : World) :
    w.metrics.allowsTotal < (checkPrompt env st p text w).state.metrics.allowsTotal ↔
      text ≠ "" ∧ PromptPasses env st p text w.tick := by
  have hpasses := @checkPrompt_passes_iff _ env st p text w
  by_cases hne : text = ""
  · subst hne
    exact iff_of_false (lt_irrefl _) fun h => h.1 rfl
  · rw [PromptPasses, ← hpasses, and_iff_right hne]
    by_cases hbound : ∃ req, promptRequest env.captures st.engine.catalog p text = .ok req
    · obtain ⟨req, hreq⟩ := hbound
      by_cases hdecides : DecidesAt env st w.tick req
      · obtain ⟨d, hd⟩ := hdecides
        rw [(checkPrompt_decided hne hreq hd).1, checkPrompt_verdict hne hreq hd]
        by_cases hallow : d.effect = .allow
        · simp [World.counted, hallow]
        · simp [World.counted, hallow]
      · rw [checkPrompt_unsettled hne hreq hdecides]
        apply iff_of_false (lt_irrefl _)
        apply checkPrompt_fails hne
        intro req' hreq' d hd
        obtain rfl := Except.ok.inj (hreq.symm.trans hreq')
        exact hdecides ⟨d, hd⟩
    · rw [checkPrompt_unbound hne (not_exists.1 hbound)]
      apply iff_of_false (lt_irrefl _)
      exact checkPrompt_fails hne fun req hreq => absurd ⟨req, hreq⟩ hbound

/-- A prompt check that passes reads once, unless there is nothing to check. -/
theorem checkPrompt_tick {p : Principal} {text : String} {w : World}
    (h : (checkPrompt env st p text w).result = .ok ()) :
    (checkPrompt env st p text w).state.tick = sendTick text w.tick ∧
      PromptDecided env st p text w.tick := by
  by_cases hne : text = ""
  · subst hne
    exact ⟨rfl, fun h => absurd rfl h⟩
  · obtain hempty | ⟨req, hreq, fresh, d, hd, -⟩ := checkPrompt_passes_iff.1 h
    · exact absurd hempty hne
    · obtain ⟨d', hd', -⟩ := decide_fresh hd (env.fresh w.tick)
      refine ⟨?_, ?_⟩
      · rw [checkPrompt_verdict hne hreq hd', sendTick, if_neg hne]
        rfl
      · intro _ req' hreq'
        obtain rfl := Except.ok.inj (hreq.symm.trans hreq')
        exact ⟨d', hd'⟩

/-! ## Forwarding -/

/-- Forwarding counts a call to the upstream, and leaves one check without a verdict exactly when the
engine fails on a call of the reply. -/
theorem forward_counts (p : Principal) (body : ChatCompletionRequest) {w : World}
    (hw : Counts n u w) :
    CountsIf (ReplyDecided env st p body w.tick) n (u + 1) (forward env st p body w).state := by
  have hsent : Counts n (u + 1)
      (w.counted fun m => { m with upstreamCalls := m.upstreamCalls + 1 }) :=
    ⟨hw.1, congrArg (· + 1) hw.2⟩
  rw [forward, count_bind]
  -- the counter has moved before the reply is known
  cases hreply : env.upstream w.tick body with
  | error e =>
      apply CountsIf.of
      · intro _ reply json hok
        rw [hreply] at hok
        cases hok
      · rw [Eff.bind_error (congrArg (mapErr _) hreply)]
        exact hsent
  | ok reply =>
      rw [Eff.bind_ok (a := reply) (congrArg (mapErr _) hreply)]
      by_cases hstream : body.stream = some true
      · rw [if_pos hstream]
        exact CountsIf.of (fun h => absurd hstream h) hsent
      · rw [if_neg hstream]
        cases hjson : env.readJson reply.text with
        | error e =>
            apply CountsIf.of
            · intro _ reply' json hok hread
              obtain rfl := Except.ok.inj (hreply.symm.trans hok)
              rw [hjson] at hread
              cases hread
            · rw [Eff.bind_error (e := .error (.upstream e)) rfl]
              exact hsent
        | ok json =>
            have hiff : ReplyDecided env st p body w.tick ↔
                AllDecided env st p (turns env st p (replyCalls json) (w.tick + 1)) := by
              constructor
              · exact fun h => h hstream reply json hreply hjson
              · intro h _ reply' json' hok hread
                obtain rfl := Except.ok.inj (hreply.symm.trans hok)
                obtain rfl := Except.ok.inj (hjson.symm.trans hread)
                exact h
            have hfilter := @filterReply_counts _ env st _ _ p json _ hsent
            rw [hiff, Eff.bind_ok (a := json) rfl]
            refine cast (congrArg _ ?_) hfilter
            exact (Eff.bind_pure_state _ _ _).symm

/-! ## One request -/

/-- Resolving the principal changes no counter. -/
theorem resolve_metrics (headers : HeaderMap) (w : World) :
    (resolve env st headers w).state.metrics = w.metrics := rfl

/-- The check endpoint settles its check exactly when a decision is made. -/
theorem checkRoute_counts (req : AuthzRequest) {w : World} (hw : Counts n u w) :
    CountsIf (DecidesAt env st w.tick req) n u (checkRoute env st req w).state := by
  rw [checkRoute, count_bind]
  cases hd : st.engine.decide (env.bundle w.tick) (env.fresh w.tick) req with
  | error e =>
      apply CountsIf.of_not
      · rintro ⟨d, hd'⟩
        rw [hd] at hd'
        cases hd'
      · have hcheck := fun m : Metrics =>
          @check_error _ env st.engine req { w with metrics := m } e hd
        rw [Eff.bind_error (congrArg Outcome.result (hcheck _)), hcheck]
        exact counts_checked hw
  | ok d =>
      apply CountsIf.of ⟨d, hd⟩
      have hcheck := fun m : Metrics => @check_ok _ env st.engine req { w with metrics := m } d hd
      rw [Eff.bind_ok (congrArg Outcome.result (hcheck _)), hcheck]
      by_cases hallow : d.effect = .allow
      · rw [if_pos hallow, count_bind]
        exact counts_allowed (counts_checked hw)
      · rw [if_neg hallow, count_bind]
        exact counts_denied (counts_checked hw)

/-- A chat request whose principal is not resolved counts nothing. -/
theorem chat_unresolved_metrics {headers : HeaderMap} {body : ChatCompletionRequest} {w : World}
    {e : Halt ProxyError} (h : (resolve env st headers w).result = .error e) :
    (chatCompletions env st headers body w).state.metrics = w.metrics := by
  rw [chatCompletions, Eff.bind_error h]
  exact resolve_metrics headers w

/-- **One chat request**: what it counts. -/
theorem chat_counts (headers : HeaderMap) (body : ChatCompletionRequest) {w : World}
    (hw : Counts n u w) {p : Principal} (hp : (resolve env st headers w).result = .ok p) :
    (PromptPasses env st p body.utterance (w.tick + 1) →
      CountsIf (PromptDecided env st p body.utterance (w.tick + 1) ∧
          ReplyDecided env st p body (sendTick body.utterance (w.tick + 1))) n (u + 1)
        (chatCompletions env st headers body w).state) ∧
      (¬PromptPasses env st p body.utterance (w.tick + 1) →
        CountsIf (PromptDecided env st p body.utterance (w.tick + 1)) n u
          (chatCompletions env st headers body w).state) := by
  have hresolved : Counts n u (resolve env st headers w).state := hw
  have hprompt := @checkPrompt_counts _ env st _ _ p body.utterance _ hresolved
  have hpasses := @checkPrompt_passes_iff _ env st p body.utterance (resolve env st headers w).state
  rw [chatCompletions, Eff.bind_ok hp]
  constructor
  · intro hpass
    have hok := hpasses.2 hpass
    obtain ⟨htick, hdecided⟩ := checkPrompt_tick hok
    have hforward := @forward_counts _ env st _ _ p body _ (hprompt.1 hdecided)
    rw [htick] at hforward
    have hrun := Eff.bind_ok hok fun _ => forward env st p body
    -- a prompt that passes has been decided
    have hiff : (PromptDecided env st p body.utterance (w.tick + 1) ∧
        ReplyDecided env st p body (sendTick body.utterance (w.tick + 1))) ↔
          ReplyDecided env st p body (sendTick body.utterance (w.tick + 1)) :=
      and_iff_right hdecided
    rw [hiff]
    exact cast (congrArg _ (congrArg Outcome.state hrun).symm) hforward
  · intro hstop
    cases hresult : (checkPrompt env st p body.utterance
        (resolve env st headers w).state).result with
    | ok _ => exact absurd (hpasses.1 hresult) hstop
    | error e =>
        have hrun := Eff.bind_error hresult fun _ => forward env st p body
        exact cast (congrArg _ (congrArg Outcome.state hrun).symm) hprompt

/-- A chat counts an allow exactly when its prompt passes. -/
theorem countsAllow_chat {headers : HeaderMap} {body : ChatCompletionRequest} {w : World}
    {p : Principal} (hp : (resolve env st headers w).result = .ok p) :
    (CountingCall.chat headers body).countsAllow env st w = true ↔
      body.utterance ≠ "" ∧ PromptPasses env st p body.utterance (w.tick + 1) := by
  have hallows := @checkPrompt_allows _ env st p body.utterance
    (resolve env st headers w).state
  rw [CountingCall.countsAllow]
  rcases hresolve : resolve env st headers w with ⟨r, w₁, es⟩
  rw [hresolve] at hp hallows
  have htick : w₁.tick = w.tick + 1 := by
    have hstate := congrArg (fun o => o.state.tick) hresolve
    exact hstate.symm
  obtain rfl : r = .ok p := hp
  rw [← htick]
  exact decide_eq_true_iff.trans hallows

/-- A request leaves as many checks without a verdict as it adds to them, none exactly when the engine
decides on every check. -/
theorem run_unsettled (c : CountingCall) (w : World) :
    ∃ k : Nat, (c.run env st w).metrics.unsettled = w.metrics.unsettled + k ∧
      (k = 0 ↔ c.Decided env st w) := by
  have hw : Counts w.metrics.unsettled w.metrics.upstreamCalls w := ⟨rfl, rfl⟩
  cases c with
  | check req => exact (checkRoute_counts req hw).unsettled
  | chat headers body =>
      cases hp : (resolve env st headers w).result with
      | error e =>
          refine ⟨0, ?_, iff_of_true rfl fun p h => ?_⟩
          · rw [CountingCall.run, chat_unresolved_metrics hp, Nat.cast_zero, add_zero]
          · rw [hp] at h
            cases h
      | ok p =>
          obtain ⟨hpass, hstop⟩ := chat_counts headers body hw hp
          -- a prompt that is stopped leaves the gate's own counts only
          by_cases hpasses : PromptPasses env st p body.utterance (w.tick + 1)
          · obtain ⟨k, hk, hiff⟩ := (hpass hpasses).unsettled
            refine ⟨k, hk, hiff.trans ?_⟩
            rw [CountingCall.Decided, hp]
            simp [hpasses]
          · obtain ⟨k, hk, hiff⟩ := (hstop hpasses).unsettled
            refine ⟨k, hk, hiff.trans ?_⟩
            rw [CountingCall.Decided, hp]
            simp [hpasses]

/-- A request calls the upstream as often as its prompt is counted as an allow, and once more exactly
when it has no prompt. -/
theorem run_upstream (c : CountingCall) (w : World) :
    ∃ j : Nat, (c.run env st w).metrics.upstreamCalls =
      w.metrics.upstreamCalls + (c.countsAllow env st w).toNat + j ∧
      (j = 0 ↔ c.HasPrompt env st w) := by
  have hw : Counts w.metrics.unsettled w.metrics.upstreamCalls w := ⟨rfl, rfl⟩
  cases c with
  | check req => exact ⟨0, (checkRoute_counts req hw).upstream, iff_of_true rfl trivial⟩
  | chat headers body =>
      -- a request that is not resolved counts nothing
      cases hp : (resolve env st headers w).result with
      | error e =>
          have hcounts : (CountingCall.chat headers body).countsAllow env st w = false := by
            rw [CountingCall.countsAllow]
            rcases hresolve : resolve env st headers w with ⟨r, w₁, es⟩
            rw [hresolve] at hp
            obtain rfl : r = .error e := hp
            rfl
          refine ⟨0, ?_, iff_of_true rfl fun p h => ?_⟩
          · rw [CountingCall.run, chat_unresolved_metrics hp, hcounts]
            rfl
          · rw [hp] at h
            cases h
      | ok p =>
          obtain ⟨hpass, hstop⟩ := chat_counts headers body hw hp
          have hcounts := @countsAllow_chat _ env st headers body w p hp
          have hprompt : (CountingCall.chat headers body).HasPrompt env st w ↔
              body.utterance ≠ "" := by
            rw [CountingCall.HasPrompt, hp]
            simp
          rw [hprompt]
          by_cases hpasses : PromptPasses env st p body.utterance (w.tick + 1)
          · have hup : (CountingCall.run env st w (.chat headers body)).metrics.upstreamCalls =
                w.metrics.upstreamCalls + 1 := (hpass hpasses).upstream
            by_cases hempty : body.utterance = ""
            · -- nothing was checked, so nothing was allowed
              have hfalse := Bool.eq_false_iff.2 fun h => (hcounts.1 h).1 hempty
              exact ⟨1, by rw [hup, hfalse]; rfl, iff_of_false one_ne_zero fun h => h hempty⟩
            · rw [hcounts.2 ⟨hempty, hpasses⟩]
              exact ⟨0, hup, iff_of_true rfl hempty⟩
          · have hup : (CountingCall.run env st w (.chat headers body)).metrics.upstreamCalls =
                w.metrics.upstreamCalls := (hstop hpasses).upstream
            have hfalse := Bool.eq_false_iff.2 fun h => hpasses (hcounts.1 h).2
            rw [hfalse]
            exact ⟨0, hup, iff_of_true rfl fun h => hpasses (Or.inl h)⟩

/-- **A sequence of requests**: what it leaves without a verdict and what it sends without an allow
add up, and are nothing exactly when every request is settled. -/
theorem afterCalls_counts (calls : List CountingCall) : ∀ w : World, ∃ k j : Nat,
    (afterCalls env st calls w).metrics.unsettled = w.metrics.unsettled + k ∧
      (afterCalls env st calls w).metrics.upstreamCalls =
        w.metrics.upstreamCalls + countedAllows env st calls w + j ∧
      (k = 0 ∧ j = 0 ↔ EverySettled env st calls w) := by
  induction calls with
  | nil =>
      intro w
      refine ⟨0, 0, ?_, rfl, iff_of_true ⟨rfl, rfl⟩ trivial⟩
      rw [Nat.cast_zero, add_zero]
      rfl
  | cons c cs ih =>
      intro w
      obtain ⟨k, hk, hdecided⟩ := @run_unsettled _ env st c w
      obtain ⟨j, hj, hprompt⟩ := @run_upstream _ env st c w
      obtain ⟨k', j', hk', hj', hrest⟩ := ih (c.run env st w)
      refine ⟨k + k', j + j', ?_, ?_, ?_⟩
      · rw [afterCalls, hk', hk]
        push_cast
        omega
      · rw [afterCalls, hj', hj, countedAllows]
        omega
      · -- both sums are zero exactly when every summand is
        rw [EverySettled, ← hdecided, ← hprompt, ← hrest]
        omega

end

/-- **When the counters balance.** After a sequence of requests to the counting endpoints every counted
check has its verdict and every call to the upstream its allow, exactly when the engine decided on
every check that was counted and every chat request of a resolved principal had a prompt. -/
theorem balanced_iff {E : Engine} (env : ProxyEnv E) (st : AppState) (tick : Nat)
    (cache : IdentityCache) (calls : List CountingCall) :
    Balanced env st calls (World.start tick cache) ↔
      EverySettled env st calls (World.start tick cache) := by
  obtain ⟨k, j, hk, hj, hiff⟩ := @afterCalls_counts _ env st calls
    (World.start tick cache)
  have hnone : (World.start tick cache).metrics.unsettled = 0 := rfl
  have hunsent : (World.start tick cache).metrics.upstreamCalls = 0 := rfl
  rw [hnone, Metrics.unsettled] at hk
  rw [hunsent] at hj
  rw [← hiff, Balanced]
  omega

/-! ## Counters that stay apart -/

namespace GeneralChat

/-- A request whose principal has no id. -/
def nobody : AuthzRequest :=
  { principal := Principal.withRoles "" []
    action := ⟨"READ"⟩
    resource := ⟨"GENERAL_CHAT", none, IndexMap.empty⟩
    subject := none
    context := ⟨IndexMap.empty⟩
    relationships := []
    actingAs := none
    onBehalfOf := none }

/-- A chat whose only message is an image. -/
def image : ChatCompletionRequest :=
  chat [said (.arr [.obj [("type", .str "image_url"),
    ("image_url", .obj [("url", .str "data:,")])]])]

end GeneralChat

open GeneralChat in
/-- A check of a request without a principal stays without a verdict, and a chat without a text is
sent without an allow. -/
theorem counters_unbalanced :
    ¬Balanced (env emptyReply) state [.check nobody] (World.start 0 (IdentityCache.new 300)) ∧
      ¬Balanced (env emptyReply) state [.chat headers image]
        (World.start 0 (IdentityCache.new 300)) := by
  refine ⟨fun h => ?_, fun h => ?_⟩
  · obtain ⟨⟨hdecided, -⟩, -⟩ := (balanced_iff _ _ _ _ _).1 h
    obtain ⟨d, hd⟩ := hdecided
    -- the request is refused before it is evaluated
    have hinvalid : nobody.validate = .error (.invalidRequest "principal.id is required") := by
      decide +kernel
    have hdecide : state.engine.decide bundle ⟨"u", "t"⟩ nobody =
        mapErr (Halt.mapError fun e => .badRequest e.toText)
          (evaluate Engine.reference ⟨"u", "t"⟩ nobody bundle.toEvaluatorConfig) := rfl
    have hd' : state.engine.decide bundle ⟨"u", "t"⟩ nobody = .ok d := hd
    rw [hdecide, evaluate, hinvalid] at hd'
    cases hd'
  · obtain ⟨⟨-, hprompt⟩, -⟩ := (balanced_iff _ _ _ _ _).1 h
    have htext : image.utterance = "" := by decide +kernel
    exact hprompt bob (resolve_bob emptyReply) htext

end Paac
