import CodexBridge.AppServer.Supervisor

/-! # Calls

A call that was registered stays in the table of requests, and the end of a call is in
the trace. Both hold whatever the order of the steps.
-/

namespace CodexBridge.AppServer

open Effect

/-! ## What the steps of the link keep -/

def Event.isRegistered : Event → Bool
  | .registered .. => true
  | _ => false

namespace Link

/-- From `l` to `t` the trace grows, no request is forgotten, and a request is entered or ended with
a record of it. -/
structure Onward (l t : Link) : Prop where
  kept : ∀ n q, l.requests.get? n = some q → ∃ q', t.requests.get? n = some q'
  ended : ∀ n q o, t.requests.get? n = some q → q.stage = .ended o →
    .ended n o ∈ t.trace ∨ ∃ q', l.requests.get? n = some q' ∧ q'.stage = .ended o
  past : l.trace <:+ t.trace
  registered : ∀ g n, .registered g n ∈ t.trace →
    .registered g n ∈ l.trace ∨ ∃ q, t.requests.get? n = some q

section

variable {l t u : Link} {env : Settings} {closed : Bool}

theorem Onward.trans (h : Onward l t) (h' : Onward t u) : Onward l u where
  kept n q hq := by
    obtain ⟨q', hq'⟩ := h.kept n q hq
    exact h'.kept n q' hq'
  ended n q o hq ho := by
    rcases h'.ended n q o hq ho with hm | ⟨q', hq', ho'⟩
    · exact .inl hm
    · exact (h.ended n q' o hq' ho').imp_left fun hm => h'.past.subset hm
  past := h.past.trans h'.past
  registered g n hm := by
    rcases h'.registered g n hm with hm | hq
    · rcases h.registered g n hm with hm | ⟨q, hq⟩
      · exact .inl hm
      · exact .inr (h'.kept n q hq)
    · exact .inr hq

theorem onward_of (hrequests : t.requests = l.requests)
    (ht : t.trace = l.trace ∨ ∃ e, e.isRegistered = false ∧ t.trace = e :: l.trace) :
    Onward l t where
  kept n q hq := ⟨q, by rw [hrequests, hq]⟩
  ended n q o hq ho := by
    rw [hrequests] at hq
    exact .inr ⟨q, hq, ho⟩
  past := by
    rcases ht with ht | ⟨e, -, ht⟩
    · exact ⟨[], ht.symm⟩
    · rw [ht]
      exact List.suffix_cons e l.trace
  registered g n hm := by
    rcases ht with ht | ⟨e, he, ht⟩
    · rw [ht] at hm
      exact .inl hm
    rw [ht] at hm
    rcases List.mem_cons.mp hm with rfl | hm
    · cases he
    · exact .inl hm

theorem onward_refl (l : Link) : Onward l l := onward_of rfl (.inl rfl)

theorem onward_stage {n : Nat} {stage : Stage}
    (hrequests : t.requests = (l.setStage n stage).requests)
    (ht : t.trace = l.trace ∧ (∀ o, stage ≠ .ended o) ∨
      ∃ o, stage = .ended o ∧ t.trace = .ended n o :: l.trace) : Onward l t where
  kept m q hq := by
    rw [hrequests]
    change ∃ q', (l.requests.update n _).get? m = some q'
    rw [Dict.get?_update, hq]
    split
    · exact ⟨_, rfl⟩
    · exact ⟨q, rfl⟩
  ended m q o hq ho := by
    rw [hrequests] at hq
    change (l.requests.update n _).get? m = some q at hq
    rw [Dict.get?_update] at hq
    split at hq
    · rename_i hm
      obtain ⟨q', hq', rfl⟩ := Option.map_eq_some_iff.mp hq
      rcases ht with ⟨-, hopen⟩ | ⟨o', hstage, ht⟩
      · exact absurd ho (hopen o)
      have he : o' = o := Stage.ended.inj (hstage.symm.trans ho)
      rw [ht, hm, he]
      exact .inl List.mem_cons_self
    · exact .inr ⟨q, hq, ho⟩
  past := by
    rcases ht with ⟨ht, -⟩ | ⟨o, -, ht⟩
    · exact ⟨[], ht.symm⟩
    · rw [ht]
      exact List.suffix_cons _ _
  registered g m hm := by
    rcases ht with ⟨ht, -⟩ | ⟨o, -, ht⟩
    · rw [ht] at hm
      exact .inl hm
    rw [ht] at hm
    rcases List.mem_cons.mp hm with he | hm
    · cases he
    · exact .inl hm

theorem onward_setStage (l : Link) (n : Nat) {stage : Stage} (h : ∀ o, stage ≠ .ended o) :
    Onward l (l.setStage n stage) :=
  onward_stage rfl (.inl ⟨rfl, h⟩)

theorem onward_endRequest (l : Link) (n : Nat) (o : Outcome) : Onward l (l.endRequest n o) :=
  onward_stage rfl (.inr ⟨o, rfl, rfl⟩)

theorem onward_register {g n : Nat} {method : String} {requireReady : Bool}
    (hr : l.register env g method requireReady = .ok (n, t)) : Onward l t := by
  obtain ⟨-, rfl, rfl⟩ := register_spec hr
  have hget : ∀ m q, l.requests.get? m = some q →
      ∃ q', (l.requests.set l.nextRequestId ⟨g, method, .registered, none⟩).get? m = some q' := by
    intro m q hq
    rw [Dict.get?_set]
    split
    · exact ⟨_, rfl⟩
    · exact ⟨q, hq⟩
  refine ⟨hget, ?_, List.suffix_cons _ _, ?_⟩
  · intro m q o hq ho
    simp only [Dict.get?_set] at hq
    split at hq
    · cases hq
      cases ho
    · exact .inr ⟨q, hq, ho⟩
  · intro g' m hm
    rcases List.mem_cons.mp hm with he | hm
    · cases he
      refine .inr ⟨⟨g, method, .registered, none⟩, ?_⟩
      rw [Dict.get?_set, if_pos rfl]
    · exact .inl hm

theorem onward_settle {i : Nat} (hs : l.settle i = some t) : Onward l t := by
  unfold settle at hs
  split at hs
  · rename_i n o _
    cases hs
    refine ⟨?_, ?_, List.suffix_cons _ _, ?_⟩
    · intro m q hq
      simp only [settled, Dict.get?_update, hq]
      split
      · exact ⟨_, rfl⟩
      · exact ⟨q, rfl⟩
    · intro m q o' hq ho
      simp only [settled, Dict.get?_update] at hq
      split at hq
      · obtain ⟨q', hq', rfl⟩ := Option.map_eq_some_iff.mp hq
        exact .inr ⟨q', hq', ho⟩
      · exact .inr ⟨q, hq, ho⟩
    · intro g m hm
      rcases List.mem_cons.mp hm with he | hm
      · cases he
      · exact .inl hm
  · cases hs

theorem onward_retireId (l : Link) (key : Key) : Onward l (l.retireId key) :=
  onward_of rfl (.inr ⟨.retired key, rfl, rfl⟩)

theorem onward_failGenerationPending (l : Link) (g : Nat) (error : ClientError) :
    Onward l (l.failGenerationPending g error) := by
  unfold failGenerationPending
  generalize l.pending.filter _ = keys
  induction keys generalizing l with
  | nil => exact onward_refl l
  | cons key keys ih =>
    have hkey : Onward l (l.failPendingKey key error) :=
      onward_of rfl (.inr ⟨.retired key, rfl, rfl⟩)
    exact hkey.trans (ih _)

theorem onward_markGenerationFailed (l : Link) (g : Nat) (error : ClientError) :
    Onward l (l.markGenerationFailed g error) := by
  unfold markGenerationFailed
  split
  · exact onward_refl l
  · exact onward_of rfl (.inr ⟨.failed g, rfl, rfl⟩)

theorem onward_abortGeneration (l : Link) (g : Nat) (closed : Bool) :
    Onward l (l.abortGeneration g closed).2 := by
  unfold abortGeneration
  split
  · exact onward_refl l
  · exact onward_of rfl (.inr ⟨.failed g, rfl, rfl⟩)

theorem onward_abandon (l : Link) (n : Nat) (q : Request) (error : ClientError) :
    Onward l (l.abandon n q error) := by
  have hunlisted : Onward l { l with pending := l.pending.erase (keyOf q.generation n) } :=
    onward_of rfl (.inl rfl)
  exact hunlisted.trans (onward_endRequest _ n _)

theorem onward_withdraw (l : Link) (n : Nat) (q : Request) : Onward l (l.withdraw n q) := by
  unfold withdraw
  simp only
  split
  · have hunlisted : Onward l { l with pending := l.pending.erase (keyOf q.generation n) } :=
      onward_of rfl (.inl rfl)
    have hretired := hunlisted.trans (onward_retireId _ (keyOf q.generation n))
    refine Onward.trans ?_ (onward_endRequest _ n _)
    exact hretired.trans (onward_of rfl (.inr ⟨.timedOut q.generation n, rfl, rfl⟩))
  · exact onward_setStage l n fun o he => by cases he

theorem onward_routeResponse (l : Link) (env : Settings) (g : Nat) (id : RequestId) (body : Body) :
    Onward l (l.routeResponse env g id body) := by
  unfold routeResponse
  simp only
  split
  · split
    · exact onward_of rfl (.inr ⟨_, rfl, rfl⟩)
    · exact onward_of rfl (.inr ⟨_, rfl, rfl⟩)
  · split
    · exact onward_of rfl (.inr ⟨_, rfl, rfl⟩)
    · exact onward_of rfl (.inr ⟨_, rfl, rfl⟩)

theorem onward_routeServerRequest (l : Link) (env : Settings) (k : Nat) (q : ServerRequest)
    (handled : Bool) : Onward l (l.routeServerRequest env k q handled) := by
  unfold routeServerRequest
  split
  · exact onward_of rfl (.inl rfl)
  simp only
  split
  · exact onward_of rfl (.inr ⟨_, rfl, rfl⟩)
  split
  · exact onward_of rfl (.inr ⟨_, rfl, rfl⟩)
  · exact onward_of rfl (.inr ⟨_, rfl, rfl⟩)

theorem onward_invoke (l : Link) (k : Nat) (q : ServerRequest) : Onward l (l.invoke k q) := by
  unfold invoke
  simp only
  split
  · exact onward_of rfl (.inl rfl)
  · exact onward_of rfl (.inl rfl)

theorem onward_takeToken (l : Link) (k : Nat) (q : ServerRequest) : Onward l (l.takeToken k q) := by
  unfold takeToken
  split
  · exact onward_refl l
  · exact onward_of rfl (.inl rfl)

theorem onward_discardServerRequest (l : Link) (g : Nat) (id : RequestId) (closed : Bool) :
    Onward l (l.discardServerRequest g id closed) := by
  unfold discardServerRequest
  simp only
  split
  · exact onward_refl l
  · exact onward_of rfl (.inr ⟨_, rfl, rfl⟩)

theorem onward_writeFails (l : Link) (payload : Payload) (error : ClientError) :
    Onward l (l.writeFails payload error) := by
  cases payload with
  | request n => exact onward_setStage l n fun o he => by cases he
  | answer k => exact onward_of rfl (.inl rfl)
  | notice => exact onward_refl l

theorem onward_startWrite (l : Link) (payload : Payload) (g : Nat) :
    Onward l (l.startWrite payload g) := by
  unfold startWrite
  split
  · exact onward_writeFails l payload _
  rename_i p _
  cases payload with
  | request n =>
    have hopen : ∀ o, Stage.writing ≠ .ended o := fun o he => by cases he
    exact onward_stage rfl (.inl ⟨rfl, hopen⟩)
  | answer k => exact onward_of rfl (.inl rfl)
  | notice => exact onward_of rfl (.inl rfl)

theorem onward_flush {w : Writing} {g : Nat} {result : Pipe} (hs : l.flush w g result = some t) :
    Onward l t := by
  have hreleased : Onward l { l with writer := none } := onward_of rfl (.inl rfl)
  have hbroke : ∀ error, Onward l (l.writeBroke w g error) := fun error =>
    (hreleased.trans (onward_markGenerationFailed _ g error)).trans (onward_writeFails _ _ error)
  have hwrote : Onward l (l.wrote w) := by
    obtain ⟨payload, p⟩ := w
    cases payload with
    | request n => exact hreleased.trans (onward_setStage _ n fun o he => by cases he)
    | answer k => exact onward_of rfl (.inr ⟨.answered k p, rfl, rfl⟩)
    | notice => exact hreleased
  cases result with
  | written =>
    simp only [flush] at hs
    split at hs
    · cases hs
    · cases hs
      exact hwrote
  | broken =>
    cases hs
    exact hbroke _
  | short =>
    simp only [flush] at hs
    split at hs
    · cases hs
    · cases hs
      exact hbroke _

theorem onward_atStage {n : Nat} {allowed : Stage → Bool} {act : Request → Link}
    (hact : ∀ q, Onward l (act q)) (hs : l.atStage n allowed act = some t) : Onward l t := by
  unfold atStage at hs
  split at hs
  · split at hs
    · cases hs
      exact hact _
    · cases hs
  · cases hs

theorem onward_atServerRequest {k : Nat} {allowed : Bool} {act : ServerRequest → Link}
    (hact : ∀ q, Onward l (act q)) (hs : l.atServerRequest k allowed act = some t) :
    Onward l t := by
  unfold atServerRequest at hs
  split at hs
  · split at hs
    · cases hs
      exact hact _
    · cases hs
  · cases hs

theorem onward_next {step : LinkStep} (hs : l.next env closed step = some t) : Onward l t := by
  cases step with
  | register g method requireReady =>
    simp only [next] at hs
    split at hs
    · rename_i n u hr
      cases hs
      exact onward_register hr
    · cases hs
      exact onward_refl l
  | invalid n error =>
    simp only [next] at hs
    exact onward_atStage (fun q => onward_setStage l n fun o he => by cases he) hs
  | startWrite n =>
    rcases Runs.enabled hs with ⟨_, hs⟩
    exact onward_atStage (fun q => onward_startWrite l _ q.generation) hs
  | abandon n =>
    simp only [next] at hs
    split at hs
    · rename_i q _
      split at hs
      · cases hs
        exact onward_abandon l n q _
      · cases hs
    · cases hs
  | deliver n =>
    simp only [next] at hs
    split at hs
    · cases hs
      exact onward_endRequest l n _
    · cases hs
  | expire n =>
    simp only [next] at hs
    split at hs
    · cases hs
      exact onward_setStage l n fun o he => by cases he
    · cases hs
  | withdraw n =>
    simp only [next] at hs
    exact onward_atStage (onward_withdraw l n) hs
  | conclude n =>
    simp only [next] at hs
    exact onward_atStage (fun q => onward_endRequest l n _) hs
  | settle i => exact onward_settle hs
  | response g id body =>
    rcases Runs.taken hs with ⟨_, rfl⟩
    exact onward_routeResponse l env g id body
  | serverRequest k q handled =>
    rcases Runs.taken hs with ⟨_, rfl⟩
    exact onward_routeServerRequest l env k q handled
  | overflow k =>
    rcases Runs.taken hs with ⟨_, rfl⟩
    exact onward_of rfl (.inl rfl)
  | invoke k =>
    simp only [next] at hs
    exact onward_atServerRequest (onward_invoke l k) hs
  | respond k =>
    simp only [next] at hs
    exact onward_atServerRequest (onward_takeToken l k) hs
  | rejectAnswer k =>
    rcases Runs.taken hs with ⟨_, rfl⟩
    exact onward_of rfl (.inl rfl)
  | startAnswer k =>
    simp only [next] at hs
    exact onward_atServerRequest (fun q => onward_startWrite l _ q.generation) hs
  | flush result =>
    simp only [next] at hs
    split at hs
    · split at hs
      · exact onward_flush hs
      · cases hs
    · split at hs
      · exact onward_flush hs
      · cases hs
    · cases hs
  | discard g id =>
    cases hs
    exact onward_discardServerRequest l g id closed
  | abort g =>
    cases hs
    exact onward_abortGeneration l g closed
  | mark g =>
    cases hs
    exact onward_markGenerationFailed l g _
  | readerRaises g error =>
    rcases Runs.taken hs with ⟨_, rfl⟩
    exact onward_of rfl (.inl rfl)
  | readerFails g error =>
    rcases Runs.taken hs with ⟨_, rfl⟩
    exact (onward_markGenerationFailed l g error).trans (onward_of rfl (.inl rfl))
  | readerStops g =>
    rcases Runs.taken hs with ⟨_, rfl⟩
    exact onward_of rfl (.inl rfl)
  | failPending i =>
    simp only [next] at hs
    split at hs
    · rename_i g error _
      cases hs
      have hremoved : Onward l { l with failers := l.failers.eraseIdx i } :=
        onward_of rfl (.inl rfl)
      exact hremoved.trans (onward_failGenerationPending _ g error)
    · cases hs
  | closeStdin p =>
    rcases Runs.taken hs with ⟨_, rfl⟩
    exact onward_of rfl (.inl rfl)
  | exit p =>
    rcases Runs.taken hs with ⟨_, rfl⟩
    exact onward_of rfl (.inl rfl)

end

/-- The trace and the requests tell the same. -/
structure Attended (l : Link) : Prop where
  registered : ∀ g n, .registered g n ∈ l.trace → ∃ q, l.requests.get? n = some q
  ended : ∀ n q o, l.requests.get? n = some q → q.stage = .ended o → .ended n o ∈ l.trace

theorem attended_initial : Link.initial.Attended where
  registered g n hm := by cases hm
  ended n q o hq := by cases hq

theorem Attended.onward {l t : Link} (h : l.Attended) (ht : Onward l t) : t.Attended where
  registered g n hm := by
    rcases ht.registered g n hm with hm | hq
    · obtain ⟨q, hq⟩ := h.registered g n hm
      exact ht.kept n q hq
    · exact hq
  ended n q o hq ho := by
    rcases ht.ended n q o hq ho with hm | ⟨q', hq', ho'⟩
    · exact hm
    · exact ht.past.subset (h.ended n q' o hq' ho')

end Link

/-! ## What the steps of the client keep -/

namespace Client

open Link

section

variable {s t : Client} {env : Settings}

theorem onward_call (s : Client) (env : Settings) (method : String) (next : Nat → Phase) :
    Onward s.link (s.call env method next).link := by
  unfold Client.call
  split
  · rename_i n link hr
    exact onward_register hr
  · exact onward_refl _

theorem onward_await {n : Nat} {next : Json → Client}
    (hnext : ∀ value, Onward s.link (next value).link) (ha : s.await n next = some t) :
    Onward s.link t.link := by
  unfold Client.await at ha
  split at ha
  · cases ha
    exact hnext _
  · cases ha
    exact onward_refl _
  · cases ha

theorem onward_inPhase {phase : Phase} {u : Client} (hu : Onward s.link u.link)
    (h : s.inPhase phase u = some t) : Onward s.link t.link := by
  obtain ⟨-, rfl⟩ := inPhase_spec h
  exact hu

theorem link_restoreMcpBootstrap (s : Client) (g : Option Nat) :
    (s.restoreMcpBootstrap g).link = s.link := by
  unfold restoreMcpBootstrap
  split
  · rfl
  · rfl

theorem link_activateMcpGeneration (s : Client) (g : Nat) :
    (s.activateMcpGeneration g).link = s.link := by
  unfold activateMcpGeneration
  split
  · rfl
  · rfl

/-- The supervisor sends and awaits its requests through the link alone. -/
theorem onward_supervise {step : Step} (hn : s.superviseNext env step = some t) :
    Onward s.link t.link := by
  cases step with
  | start =>
    rcases Runs.taken hn with ⟨_, rfl⟩
    exact onward_refl _
  | leave =>
    rcases Runs.taken hn with ⟨_, rfl⟩
    exact onward_refl _
  | prepare overrides =>
    rcases Runs.enabled hn with ⟨_, hn⟩
    split at hn
    · cases hn
      exact onward_refl _
    · cases hn
      exact onward_refl _
  | spawn started =>
    simp only [superviseNext] at hn
    split at hn
    · split at hn
      · cases hn
        exact onward_of rfl (.inr ⟨_, rfl, rfl⟩)
      · cases hn
        exact onward_refl _
    · cases hn
  | callInitialize =>
    refine onward_inPhase ?_ hn
    exact onward_call s env _ _
  | initialized =>
    simp only [superviseNext] at hn
    split at hn
    · refine onward_await ?_ hn
      exact fun _ => onward_refl _
    · cases hn
  | dispatch =>
    refine onward_inPhase ?_ hn
    split
    · exact onward_of rfl (.inl rfl)
    · exact onward_refl _
  | startNotice =>
    rcases Runs.enabled hn with ⟨_, hn⟩
    split at hn
    · cases hn
      exact onward_of rfl (.inl rfl)
    · cases hn
      exact onward_refl _
  | flushNotice result =>
    simp only [superviseNext] at hn
    split at hn
    · obtain ⟨link, hflush, rfl⟩ := Option.map_eq_some_iff.mp hn
      exact onward_flush hflush
    · cases hn
  | look =>
    refine onward_inPhase ?_ hn
    unfold lookAtStartupState
    split
    · exact onward_call s env _ _
    · exact onward_refl _
  | configRead =>
    simp only [superviseNext] at hn
    split at hn
    · refine onward_await (fun _ => ?_) hn
      split
      · exact onward_refl _
      · exact onward_refl _
    · cases hn
  | judge =>
    simp only [superviseNext] at hn
    split at hn
    · cases hn
      unfold judgeConfig
      split
      · exact onward_refl _
      split
      · exact onward_refl _
      · exact onward_refl _
    · cases hn
  | confirm =>
    refine onward_inPhase ?_ hn
    exact onward_refl _
  | expose =>
    refine onward_inPhase ?_ hn
    exact onward_of rfl (.inl rfl)
  | activateGeneration =>
    refine onward_inPhase ?_ hn
    exact onward_of (by rw [link_activateMcpGeneration]) (.inl (by rw [link_activateMcpGeneration]))
  | joined =>
    rcases Runs.taken hn with ⟨_, rfl⟩
    simp only
    split
    · exact onward_refl _
    · exact onward_of rfl (.inl rfl)
  | fail =>
    rcases Runs.taken hn with ⟨_, rfl⟩
    exact onward_refl _
  | restoreOnFailure =>
    refine onward_inPhase ?_ hn
    exact onward_of (by rw [link_restoreMcpBootstrap]) (.inl (by rw [link_restoreMcpBootstrap]))
  | clearReady =>
    refine onward_inPhase ?_ hn
    exact onward_of rfl (.inr ⟨_, rfl, rfl⟩)
  | failPending =>
    refine onward_inPhase ?_ hn
    exact onward_failGenerationPending _ _ _
  | discardRequests =>
    refine onward_inPhase ?_ hn
    exact onward_of rfl (.inl rfl)
  | stopProcess =>
    refine onward_inPhase ?_ hn
    exact onward_of rfl (.inl rfl)
  | dropProcess =>
    refine onward_inPhase ?_ hn
    exact onward_of rfl (.inl rfl)
  | _ => cases hn

theorem onward_inActivation {i : Nat} {act : Activation → Option Client}
    (hact : ∀ a u, act a = some u → Onward s.link u.link) (h : s.inActivation i act = some t) :
    Onward s.link t.link := by
  obtain ⟨a, -, ha⟩ := inActivation_spec h
  exact hact a t ha

theorem onward_activate {step : Step} (hn : s.activateNext env step = some t) :
    Onward s.link t.link := by
  cases step with
  | activate i =>
    rcases Runs.taken hn with ⟨_, rfl⟩
    unfold beginActivation
    split
    · exact onward_refl _
    split
    · exact onward_refl _
    · exact onward_refl _
  | activateAbort i =>
    refine onward_inActivation ?_ hn
    intro a u hu
    split at hu
    · rename_i g
      cases hu
      have habort := onward_abortGeneration s.link g s.closed
      unfold abortForActivation
      simp only
      split
      · exact habort
      · exact onward_refl _
    · cases hu
  | activateRestore i =>
    refine onward_inActivation ?_ hn
    intro a u hu
    split at hu
    · cases hu
      exact onward_of (by simp only [setActivation, link_restoreMcpBootstrap])
        (.inl (by simp only [setActivation, link_restoreMcpBootstrap]))
    · cases hu
  | activateEnd i =>
    refine onward_inActivation ?_ hn
    intro a u hu
    split at hu
    · rcases Runs.taken hu with ⟨_, rfl⟩
      unfold endActivation
      split
      · exact onward_refl _
      · exact onward_refl _
    · cases hu
  | activateExpire i =>
    refine onward_inActivation ?_ hn
    intro a u hu
    split at hu
    · split at hu
      · cases hu
      · cases hu
        exact onward_refl _
    · cases hu
  | activateLook i =>
    refine onward_inActivation ?_ hn
    intro a u hu
    split at hu
    · cases hu
      exact onward_refl _
    · cases hu
  | activateWithdraw i =>
    refine onward_inActivation ?_ hn
    intro a u hu
    split at hu
    · cases hu
      exact onward_of (by simp only [setActivation, link_restoreMcpBootstrap])
        (.inl (by simp only [setActivation, link_restoreMcpBootstrap]))
    · cases hu
  | activateAbandon i =>
    refine onward_inActivation ?_ hn
    intro a u hu
    split at hu
    · cases hu
      exact onward_abortGeneration _ _ _
    · cases hu
  | _ => cases hn

theorem onward_close {step : Step} (hn : s.closeNext step = some t) : Onward s.link t.link := by
  cases step with
  | closeBegin =>
    rcases Runs.taken hn with ⟨_, rfl⟩
    exact onward_refl _
  | closeClear =>
    rcases Runs.taken hn with ⟨_, rfl⟩
    exact onward_of rfl (.inl rfl)
  | closeMask =>
    rcases Runs.taken hn with ⟨_, rfl⟩
    exact onward_of rfl (.inl rfl)
  | failAllPending =>
    rcases Runs.taken hn with ⟨_, rfl⟩
    exact onward_of rfl (.inl rfl)
  | _ => cases hn

/-- What a step of the client does to the link is one step of the link, or belongs to one of its
routines. -/
theorem next_cases {step : Step} (hn : s.next env step = some t) :
    (∃ step' link, step = .link step' ∧ s.link.next env s.closed step' = some link ∧
      t = { s with link := link }) ∨
    s.superviseNext env step = some t ∨ s.activateNext env step = some t ∨
      s.closeNext step = some t := by
  replace hn := (next_spec hn).1
  cases step with
  | link step =>
    obtain ⟨link, hlink, rfl⟩ := Option.map_eq_some_iff.mp hn
    exact .inl ⟨step, link, rfl, hlink, rfl⟩
  | activate i => exact .inr (.inr (.inl hn))
  | activateAbort i => exact .inr (.inr (.inl hn))
  | activateRestore i => exact .inr (.inr (.inl hn))
  | activateEnd i => exact .inr (.inr (.inl hn))
  | activateExpire i => exact .inr (.inr (.inl hn))
  | activateLook i => exact .inr (.inr (.inl hn))
  | activateWithdraw i => exact .inr (.inr (.inl hn))
  | activateAbandon i => exact .inr (.inr (.inl hn))
  | closeBegin => exact .inr (.inr (.inr hn))
  | closeClear => exact .inr (.inr (.inr hn))
  | closeMask => exact .inr (.inr (.inr hn))
  | failAllPending => exact .inr (.inr (.inr hn))
  | _ => exact .inr (.inl hn)

theorem onward_next {step : Step} (hn : s.next env step = some t) : Onward s.link t.link := by
  rcases next_cases hn with ⟨step, link, -, hlink, rfl⟩ | hn | hn | hn
  · exact Link.onward_next hlink
  · exact onward_supervise hn
  · exact onward_activate hn
  · exact onward_close hn

theorem attended_run {steps : List Step}
    (h : Runs.exec (Client.next env) Client.initial steps = some s) :
    s.link.Attended :=
  Runs.invariant (I := fun s => s.link.Attended) (fun _ _ _ hi hn => hi.onward (onward_next hn))
    attended_initial h

end

end Client

end CodexBridge.AppServer
