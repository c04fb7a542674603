import CodexBridge.AppServer.Answers
import CodexBridge.AppServer.Calls

/-! # Correlation

The steps under which every request and every server request is served as it should be,
and the run lemma. A step is disorderly where the source goes wrong: a server request
reuses an id, a generation fails while an answer of it is on its way, an answer is begun
for a generation that has failed, or a late response comes when exactly as many ids as
the ring holds were retired since its own.
-/

namespace CodexBridge.AppServer

open Effect Traces

namespace Link

/-! ## The write lock -/

def stageOf (l : Link) (n : Nat) : Option Stage := (l.requests.get? n).map Request.stage

def Locked (l : Link) : Prop :=
  ∀ n, (∃ p, l.writer = some ⟨.request n, p⟩) ↔ l.stageOf n = some .writing

section

variable {l t : Link}

theorem Locked.frame (h : l.Locked)
    (hw : ∀ n p, t.writer = some ⟨.request n, p⟩ ↔ l.writer = some ⟨.request n, p⟩)
    (hs : ∀ n, t.stageOf n = some .writing ↔ l.stageOf n = some .writing) : t.Locked := by
  intro n
  simp only [hw]
  rw [hs]
  exact h n

theorem Locked.same (h : l.Locked) (hw : t.writer = l.writer) (hr : t.requests = l.requests) :
    t.Locked :=
  h.frame (fun n p => by rw [hw]) fun n => by rw [stageOf, stageOf, hr]

theorem stageOf_of_get? {n : Nat} {q : Request} (h : l.requests.get? n = some q) :
    l.stageOf n = some q.stage := by
  rw [stageOf, h]
  rfl

theorem stageOf_setStage (n m : Nat) (stage : Stage) :
    (l.setStage n stage).stageOf m =
      if m = n then (l.stageOf m).map fun _ => stage else l.stageOf m := by
  unfold stageOf
  rw [get?_setStage]
  split
  · rw [Option.map_map, Option.map_map]
    rfl
  · rfl

theorem Locked.setStage (h : l.Locked) {n : Nat} {stage : Stage}
    (hbefore : l.stageOf n ≠ some .writing) (hafter : stage ≠ .writing) :
    (l.setStage n stage).Locked := by
  refine h.frame (fun _ _ => Iff.rfl) ?_
  intro m
  rw [stageOf_setStage]
  by_cases hm : m = n
  · subst hm
    rw [if_pos rfl]
    constructor
    · intro hs
      obtain ⟨_, _, he⟩ := Option.map_eq_some_iff.mp hs
      exact absurd he hafter
    · exact fun hs => absurd hs hbefore
  · rw [if_neg hm]

theorem Locked.endRequest (h : l.Locked) {n : Nat} (o : Outcome)
    (hbefore : l.stageOf n ≠ some .writing) : (l.endRequest n o).Locked := by
  have hended : (l.setStage n (.ended o)).Locked := h.setStage hbefore fun he => by cases he
  exact hended.same rfl rfl

theorem Locked.register (h : l.Locked) (hreq : l.Requests) {env : Settings} {g n : Nat}
    {method : String} {requireReady : Bool}
    (hr : l.register env g method requireReady = .ok (n, t)) : t.Locked := by
  obtain ⟨-, hn, rfl⟩ := register_spec hr
  refine h.frame (fun _ _ => Iff.rfl) ?_
  intro m
  unfold stageOf
  simp only [Dict.get?_set]
  by_cases hm : m = n
  · rw [if_pos hm]
    have hnone : l.requests.get? m = none := by
      cases hq : l.requests.get? m with
      | none => rfl
      | some q =>
        have hlt := hreq.numbered m _ (view_of_get? hq)
        omega
    rw [hnone]
    simp
  · rw [if_neg hm]

theorem Locked.settle (h : l.Locked) {i : Nat} (hs : l.settle i = some t) : t.Locked := by
  unfold Link.settle at hs
  split at hs
  · rename_i n o _
    cases hs
    refine h.frame (fun _ _ => Iff.rfl) ?_
    intro m
    unfold stageOf settled
    simp only [Dict.get?_update]
    split
    · rw [Option.map_map]
      rfl
    · exact Iff.rfl
  · cases hs

theorem requests_failGenerationPending (l : Link) (g : Nat) (error : ClientError) :
    (l.failGenerationPending g error).requests = l.requests ∧
      (l.failGenerationPending g error).writer = l.writer := by
  unfold Link.failGenerationPending
  generalize l.pending.filter _ = keys
  induction keys generalizing l with
  | nil => exact ⟨rfl, rfl⟩
  | cons key keys ih => exact ih (l.failPendingKey key error)

theorem Locked.startWrite (h : l.Locked) {payload : Payload} {g : Nat} (hw : l.writer = none)
    (hready : ∀ n, payload = .request n → l.stageOf n = some .registered) :
    (l.startWrite payload g).Locked := by
  unfold Link.startWrite
  split
  · cases payload with
    | request n =>
      refine h.setStage ?_ (fun he => by cases he)
      rw [hready n rfl]
      simp
    | answer k => exact h.same rfl rfl
    | notice => exact h
  · rename_i p _
    have hnobody : ∀ n, l.stageOf n ≠ some .writing := by
      intro n hs
      obtain ⟨p, hp⟩ := (h n).mpr hs
      rw [hw] at hp
      cases hp
    cases payload with
    | request n =>
      intro m
      change (∃ r, some (Writing.mk (.request n) p) = some ⟨.request m, r⟩) ↔
        (l.setStage n .writing).stageOf m = some .writing
      rw [stageOf_setStage]
      by_cases hm : m = n
      · subst hm
        rw [if_pos rfl, hready m rfl]
        simp
      rw [if_neg hm]
      constructor
      · rintro ⟨r, hr⟩
        cases hr
        exact absurd rfl hm
      · exact fun hs => absurd hs (hnobody m)
    | answer k =>
      intro m
      constructor
      · rintro ⟨r, hr⟩
        cases hr
      · exact fun hs => absurd hs (hnobody m)
    | notice =>
      intro m
      constructor
      · rintro ⟨r, hr⟩
        cases hr
      · exact fun hs => absurd hs (hnobody m)

section

variable (h : l.Locked) {w : Writing} (hw : l.writer = some w)

include h hw

theorem Locked.unique {m : Nat} (hs : l.stageOf m = some .writing) : w.payload = .request m := by
  obtain ⟨p, hp⟩ := (h m).mpr hs
  rw [hw] at hp
  cases hp
  rfl

theorem Locked.release (hwriter : t.writer = none) (hothers : ∀ m, w.payload ≠ .request m →
      (t.stageOf m = some .writing ↔ l.stageOf m = some .writing))
    (hown : ∀ m, w.payload = .request m → t.stageOf m ≠ some .writing) : t.Locked := by
  intro m
  constructor
  · rintro ⟨p, hp⟩
    rw [hwriter] at hp
    cases hp
  · intro hs
    by_cases hm : w.payload = .request m
    · exact absurd hs (hown m hm)
    · exact absurd (h.unique hw ((hothers m hm).mp hs)) hm

theorem Locked.wrote :
    (l.wrote w).Locked := by
  obtain ⟨payload, p⟩ := w
  cases payload with
  | request n =>
    refine h.release hw rfl ?_ ?_
    · intro m hm
      change (Link.setStage { l with writer := none } n .waiting).stageOf m = _ ↔ _
      rw [stageOf_setStage, if_neg fun he => hm (by rw [he])]
      exact Iff.rfl
    · intro m hm
      cases hm
      change (Link.setStage { l with writer := none } n .waiting).stageOf n ≠ _
      rw [stageOf_setStage, if_pos rfl]
      intro hs
      obtain ⟨_, _, he⟩ := Option.map_eq_some_iff.mp hs
      cases he
  | answer k => exact h.release hw rfl (fun _ _ => Iff.rfl) fun m hm => by cases hm
  | notice => exact h.release hw rfl (fun _ _ => Iff.rfl) fun m hm => by cases hm

end

theorem marked_requests (l : Link) (g : Nat) (error : ClientError) :
    (l.markGenerationFailed g error).requests = l.requests ∧
      (l.markGenerationFailed g error).writer = l.writer := by
  unfold Link.markGenerationFailed
  split
  · exact ⟨rfl, rfl⟩
  · exact ⟨rfl, rfl⟩

theorem Locked.writeBroke (h : l.Locked) {w : Writing} (hw : l.writer = some w) (g : Nat)
    (error : ClientError) : (l.writeBroke w g error).Locked := by
  obtain ⟨hrequests, hwriter⟩ := marked_requests { l with writer := none } g error
  have hstage : ∀ m, (Link.markGenerationFailed { l with writer := none } g error).stageOf m =
      l.stageOf m := by
    intro m
    rw [stageOf, hrequests]
    rfl
  obtain ⟨payload, p⟩ := w
  cases payload with
  | request n =>
    refine h.release hw hwriter ?_ ?_
    · intro m hm
      change (Link.setStage _ n (.raising error)).stageOf m = _ ↔ _
      rw [stageOf_setStage, if_neg fun he => hm (by rw [he]), hstage]
    intro m hm
    cases hm
    change (Link.setStage _ n (.raising error)).stageOf n ≠ _
    rw [stageOf_setStage, if_pos rfl]
    intro hs
    obtain ⟨_, _, he⟩ := Option.map_eq_some_iff.mp hs
    cases he
  | answer k =>
    exact h.release hw hwriter (fun m _ => by rw [← hstage m]; exact Iff.rfl)
      fun m hm => by cases hm
  | notice =>
    exact h.release hw hwriter (fun m _ => by rw [← hstage m]; exact Iff.rfl)
      fun m hm => by cases hm

end

/-! ## One step of the link -/

def payloadGeneration (l : Link) : Payload → Option Nat
  | .request n => (l.requests.get? n).map Request.generation
  | .answer k => (l.received.get? k).map ServerRequest.generation
  | .notice => none

/-- The step keeps the order that the source relies on. -/
def Orderly (env : Settings) (closed : Bool) (l : Link) : LinkStep → Prop
  | .response g id _ =>
    .retired (g, id) ∈ l.trace → retiredSince (g, id) l.trace ≠ retiredIdLimit
  | .serverRequest _ q _ =>
    l.isNewKey q.key = true ∧
      (env.maxPendingRequests ≤ l.serverRequests.length → l.hasFailed q.generation = false)
  | .respond k => ∀ q, l.received.get? k = some q → l.hasFailed q.generation = false
  | .flush .broken | .flush .short =>
    ∀ w g, l.writer = some w → l.payloadGeneration w.payload = some g →
      l.isAnsweringBeside w.payload g = false
  | .abort g => (l.abortGeneration g closed).1 = true → l.isAnswering g = false
  | .mark g | .readerFails g _ => g = l.generation → l.isAnswering g = false
  | _ => True

instance (env : Settings) (closed : Bool) (l : Link) :
    (step : LinkStep) → Decidable (l.Orderly env closed step)
  | .response g id _ => inferInstanceAs
      (Decidable (.retired (g, id) ∈ l.trace → retiredSince (g, id) l.trace ≠ retiredIdLimit))
  | .serverRequest _ q _ => inferInstanceAs (Decidable (l.isNewKey q.key = true ∧
      (env.maxPendingRequests ≤ l.serverRequests.length → l.hasFailed q.generation = false)))
  | .respond k => inferInstanceAs
      (Decidable (∀ q ∈ l.received.get? k, l.hasFailed q.generation = false))
  | .flush .broken | .flush .short => decidable_of_iff
      (∀ w ∈ l.writer, ∀ g ∈ l.payloadGeneration w.payload, l.isAnsweringBeside w.payload g = false)
      ⟨fun h w g hw hg => h w hw g hg, fun h w hw g hg => h w g hw hg⟩
  | .abort g => inferInstanceAs
      (Decidable ((l.abortGeneration g closed).1 = true → l.isAnswering g = false))
  | .mark g | .readerFails g _ => inferInstanceAs
      (Decidable (g = l.generation → l.isAnswering g = false))
  | .register .. | .invalid .. | .startWrite _ | .abandon _ | .deliver _ | .expire _ | .withdraw _
  | .conclude _ | .settle _ | .overflow _ | .invoke _ | .rejectAnswer _ | .startAnswer _
  | .flush .written | .discard .. | .readerRaises .. | .readerStops _ | .failPending _
  | .closeStdin _ | .exit _ => isTrue trivial

structure Sound (l : Link) : Prop where
  requests : l.Requests
  answers : l.Answers
  locked : l.Locked

section

variable {l t : Link} {env : Settings} {closed : Bool}

theorem Sound.aside (h : l.Sound) (hc : Calm l t) (hm : Mute l t) (hw : t.writer = l.writer)
    (hr : t.requests = l.requests) : t.Sound :=
  ⟨h.requests.calm hc, h.answers.mute hm, h.locked.same hw hr⟩

theorem atStage_spec {n : Nat} {allowed : Stage → Bool} {act : Request → Link}
    (hs : l.atStage n allowed act = some t) :
    ∃ q, l.requests.get? n = some q ∧ allowed q.stage = true ∧ t = act q := by
  unfold atStage at hs
  split at hs
  · rename_i q hq
    rcases Runs.taken hs with ⟨ha, rfl⟩
    exact ⟨q, hq, ha, rfl⟩
  · cases hs

theorem atServerRequest_spec {k : Nat} {allowed : Bool} {act : ServerRequest → Link}
    (hs : l.atServerRequest k allowed act = some t) :
    ∃ q, l.received.get? k = some q ∧ allowed = true ∧ t = act q := by
  unfold atServerRequest at hs
  split at hs
  · rename_i q hq
    rcases Runs.taken hs with ⟨ha, rfl⟩
    exact ⟨q, hq, ha, rfl⟩
  · cases hs

variable {q : Request}

section

variable (h : l.Sound) {n : Nat} (hq : l.requests.get? n = some q)

include h hq

theorem Sound.setStage (hopen : ∀ o, q.stage ≠ .ended o) (hwriting : q.stage ≠ .writing)
    {stage : Stage} (hafter : stage ≠ .writing) : (l.setStage n stage).Sound where
  requests := h.requests.calm (calm_setStage hq hopen stage)
  answers := h.answers.mute (mute_setStage l n stage)
  locked := h.locked.setStage (by simp [stageOf_of_get? hq, hwriting]) hafter

theorem Sound.endRequest (hopen : ∀ o, q.stage ≠ .ended o) (hwriting : q.stage ≠ .writing)
    {o : Outcome} (hb : ∀ v, o = .result v → Backed l.trace n v) : (l.endRequest n o).Sound where
  requests := h.requests.endRequest hq hopen hb
  answers := h.answers.mute (mute_endRequest l n o)
  locked := h.locked.endRequest o (by simp [stageOf_of_get? hq, hwriting])

theorem Sound.withdraw (hstage : q.stage = .expired) : (l.withdraw n q).Sound where
  requests := h.requests.withdraw hq fun o he => by simp [hstage] at he
  answers := h.answers.mute (mute_withdraw l n q)
  locked := by
    have hbefore : l.stageOf n ≠ some .writing := by simp [stageOf_of_get? hq, hstage]
    unfold Link.withdraw
    simp only
    split
    · have hsame : Locked { Link.retireId { l with
          pending := l.pending.erase (keyOf q.generation n) } (keyOf q.generation n) with
            trace := .timedOut q.generation n :: (Link.retireId { l with
              pending := l.pending.erase (keyOf q.generation n) } (keyOf q.generation n)).trace } :=
        h.locked.same rfl rfl
      exact hsame.endRequest _ hbefore
    · exact h.locked.setStage hbefore fun he => by cases he

theorem Sound.conclude (hstage : q.stage = .overtaken) : (l.conclude n q).Sound where
  requests := h.requests.conclude hq fun o he => by simp [hstage] at he
  answers := h.answers.mute (mute_endRequest l n _)
  locked := h.locked.endRequest _ (by simp [stageOf_of_get? hq, hstage])

theorem Sound.abandon {error : ClientError} (hstage : q.stage = .raising error) :
    (l.abandon n q error).Sound where
  requests := h.requests.abandon hq (fun o he => by simp [hstage] at he) error
  answers := h.answers.mute (mute_abandon l n q error)
  locked := by
    have hsame : Locked { l with pending := l.pending.erase (keyOf q.generation n) } :=
      h.locked.same rfl rfl
    have hbefore : l.stageOf n ≠ some .writing := by simp [stageOf_of_get? hq, hstage]
    exact hsame.endRequest _ hbefore

end

theorem Sound.routeResponse (h : l.Sound) {g : Nat} {id : RequestId} (body : Body)
    (hg : g ∈ l.readers) (ho : Orderly env closed l (.response g id body)) :
    (l.routeResponse env g id body).Sound where
  requests := h.requests.routeResponse body hg ho
  answers := h.answers.mute (mute_routeResponse l env g id body)
  locked := by
    unfold Link.routeResponse
    simp only
    split
    · split
      · exact h.locked.same rfl rfl
      · exact h.locked.same rfl rfl
    · split
      · exact h.locked.same rfl rfl
      · exact h.locked.same rfl rfl

theorem Sound.markGenerationFailed (h : l.Sound) {g : Nat} (error : ClientError)
    (hidle : g = l.generation → l.isAnswering g = false) :
    (l.markGenerationFailed g error).Sound where
  requests := h.requests.calm (calm_markGenerationFailed l g error)
  answers := h.answers.markGenerationFailed error hidle
  locked := h.locked.same (marked_requests l g error).2 (marked_requests l g error).1

theorem Sound.abortGeneration (h : l.Sound) {g : Nat}
    (hidle : (l.abortGeneration g closed).1 = true → l.isAnswering g = false) :
    (l.abortGeneration g closed).2.Sound where
  requests := h.requests.calm (calm_abortGeneration l g closed)
  answers := h.answers.abortGeneration hidle
  locked := by
    unfold Link.abortGeneration
    split
    · exact h.locked
    · exact h.locked.same rfl rfl

theorem Sound.failGenerationPending (h : l.Sound) (g : Nat) (error : ClientError) :
    (l.failGenerationPending g error).Sound where
  requests := h.requests.failGenerationPending g error
  answers := h.answers.mute (mute_failGenerationPending l g error)
  locked := h.locked.same (requests_failGenerationPending l g error).2
    (requests_failGenerationPending l g error).1

theorem Sound.startWrite (h : l.Sound) {payload : Payload} {g : Nat} (hw : l.writer = none)
    (hrequest : ∀ n, payload = .request n → ∃ q, l.requests.get? n = some q ∧ q.stage = .registered)
    (hanswer : ∀ k, payload = .answer k → k ∈ l.answering ∧
      ∃ q, l.received.get? k = some q ∧ q.generation = g) :
    (l.startWrite payload g).Sound where
  requests := by
    refine h.requests.calm (calm_startWrite ?_ g)
    cases payload with
    | request n =>
      obtain ⟨q, hq, hstage⟩ := hrequest n rfl
      exact ⟨q, hq, fun o he => by simp [hstage] at he⟩
    | answer k => trivial
    | notice => trivial
  answers := h.answers.startWrite hw hanswer
  locked := by
    refine h.locked.startWrite hw ?_
    intro n hn
    obtain ⟨q, hq, hstage⟩ := hrequest n hn
    rw [stageOf_of_get? hq, hstage]

theorem Locked.ongoing (h : l.Locked) {w : Writing} (hw : l.writer = some w) :
    l.Ongoing w.payload := by
  obtain ⟨payload, p⟩ := w
  cases payload with
  | request n =>
    have hs := (h n).mp ⟨p, hw⟩
    obtain ⟨q, hq, hstage⟩ := Option.map_eq_some_iff.mp hs
    exact ⟨q, hq, fun o he => by simp [hstage] at he⟩
  | answer k => trivial
  | notice => trivial

theorem Sound.flush (h : l.Sound) {w : Writing} {g : Nat} {result : Pipe}
    (hw : l.writer = some w) (hidle : result ≠ .written → l.isAnsweringBeside w.payload g = false)
    (hs : l.flush w g result = some t) : t.Sound where
  requests := h.requests.flush (h.locked.ongoing hw) hs
  answers := by
    cases result with
    | written =>
      rcases Option.ite_none_left_eq_some.mp hs with ⟨hopen, hs⟩
      cases hs
      exact h.answers.wrote hw hopen
    | broken =>
      cases hs
      exact h.answers.writeBroke _ (hidle fun he => by cases he)
    | short =>
      rcases Option.ite_none_left_eq_some.mp hs with ⟨_, hs⟩
      cases hs
      exact h.answers.writeBroke _ (hidle fun he => by cases he)
  locked := by
    cases result with
    | written =>
      rcases Option.ite_none_left_eq_some.mp hs with ⟨_, hs⟩
      cases hs
      exact h.locked.wrote hw
    | broken =>
      cases hs
      exact h.locked.writeBroke hw g _
    | short =>
      rcases Option.ite_none_left_eq_some.mp hs with ⟨_, hs⟩
      cases hs
      exact h.locked.writeBroke hw g _

theorem Sound.next {step : LinkStep} (h : l.Sound) (ho : Orderly env closed l step)
    (hs : l.next env closed step = some t) : t.Sound := by
  cases step with
  | register g method requireReady =>
    simp only [Link.next] at hs
    split at hs
    · rename_i n u hr
      cases hs
      exact ⟨h.requests.register hr, h.answers.mute (mute_register hr),
        h.locked.register h.requests hr⟩
    · cases hs
      exact h
  | invalid n error =>
    simp only [Link.next] at hs
    obtain ⟨q, hq, ha, rfl⟩ := atStage_spec hs
    have hstage : q.stage = .registered := of_decide_eq_true ha
    exact h.setStage hq (fun o he => by simp [hstage] at he) (by simp [hstage])
      fun he => by cases he
  | startWrite n =>
    rcases Runs.enabled hs with ⟨hw, hs⟩
    obtain ⟨q, hq, ha, rfl⟩ := atStage_spec hs
    refine h.startWrite hw ?_ fun k he => by cases he
    intro m he
    cases he
    exact ⟨q, hq, of_decide_eq_true ha⟩
  | abandon n =>
    simp only [Link.next] at hs
    split at hs
    · rename_i q hq
      split at hs
      · rename_i error hstage
        cases hs
        exact h.abandon hq hstage
      · cases hs
    · cases hs
  | deliver n =>
    simp only [Link.next] at hs
    split at hs
    · rename_i g method outcome hq
      cases hs
      refine h.endRequest hq (fun o he => by cases he) (fun he => by cases he) ?_
      intro v he
      subst he
      exact h.requests.futureBacked n g v (view_of_get? hq)
    · cases hs
  | expire n =>
    simp only [Link.next] at hs
    split at hs
    · rename_i g method hq
      cases hs
      exact h.setStage hq (fun o he => by cases he) (fun he => by cases he) fun he => by cases he
    · cases hs
  | withdraw n =>
    simp only [Link.next] at hs
    obtain ⟨q, hq, ha, rfl⟩ := atStage_spec hs
    exact h.withdraw hq (of_decide_eq_true ha)
  | conclude n =>
    simp only [Link.next] at hs
    obtain ⟨q, hq, ha, rfl⟩ := atStage_spec hs
    exact h.conclude hq (of_decide_eq_true ha)
  | settle i =>
    exact ⟨h.requests.settle hs, h.answers.mute (mute_settle hs), h.locked.settle hs⟩
  | response g id body =>
    rcases Runs.taken hs with ⟨hg, rfl⟩
    exact h.routeResponse body hg ho
  | serverRequest k q handled =>
    rcases Runs.taken hs with ⟨hguard, rfl⟩
    have hfresh : l.received.get? k = none := by
      have hc := hguard.2
      unfold Dict.contains at hc
      simpa using hc
    refine ⟨h.requests.calm (calm_routeServerRequest l env k q handled),
      h.answers.routeServerRequest handled ho.1 hfresh ho.2, ?_⟩
    unfold Link.routeServerRequest
    split
    · exact h.locked.same rfl rfl
    simp only
    split
    · exact h.locked.same rfl rfl
    split
    · exact h.locked.same rfl rfl
    · exact h.locked.same rfl rfl
  | overflow k =>
    rcases Runs.taken hs with ⟨_, rfl⟩
    exact h.aside (calm_of rfl rfl rfl rfl rfl rfl rfl rfl (.inl rfl))
      (mute_of rfl rfl rfl rfl rfl rfl rfl (silent l)) rfl rfl
  | invoke k =>
    simp only [Link.next] at hs
    obtain ⟨q, hq, -, rfl⟩ := atServerRequest_spec hs
    refine h.aside (calm_invoke l k q) (mute_invoke l k q) ?_ ?_
    · unfold Link.invoke
      simp only
      split <;> rfl
    · unfold Link.invoke
      simp only
      split <;> rfl
  | respond k =>
    simp only [Link.next] at hs
    obtain ⟨q, hq, -, rfl⟩ := atServerRequest_spec hs
    refine ⟨h.requests.calm (calm_takeToken l k q), h.answers.takeToken hq (ho q hq), ?_⟩
    unfold Link.takeToken
    split
    · exact h.locked
    · exact h.locked.same rfl rfl
  | rejectAnswer k =>
    rcases Runs.taken hs with ⟨hguard, rfl⟩
    refine h.aside (calm_of rfl rfl rfl rfl rfl rfl rfl rfl (.inl rfl)) (mute_dropAnswer l k ?_)
      rfl rfl
    intro p hp
    rw [hp] at hguard
    exact hguard.2 rfl
  | startAnswer k =>
    simp only [Link.next] at hs
    obtain ⟨q, hq, ha, rfl⟩ := atServerRequest_spec hs
    obtain ⟨hw, hk⟩ := of_decide_eq_true ha
    refine h.startWrite hw (fun n he => by cases he) ?_
    intro m he
    cases he
    exact ⟨hk, q, hq, rfl⟩
  | flush result =>
    have hidle : ∀ w g, result ≠ .written → l.writer = some w →
        l.payloadGeneration w.payload = some g → l.isAnsweringBeside w.payload g = false := by
      intro w g hr hw hg
      cases result with
      | written => exact absurd rfl hr
      | broken => exact ho w g hw hg
      | short => exact ho w g hw hg
    simp only [Link.next] at hs
    split at hs
    · rename_i n p hw
      split at hs
      · rename_i q hq
        refine h.flush hw (fun hr => hidle _ _ hr hw ?_) hs
        change (l.requests.get? n).map Request.generation = some q.generation
        rw [hq]
        rfl
      · cases hs
    · rename_i k p hw
      split at hs
      · rename_i q hq
        refine h.flush hw (fun hr => hidle _ _ hr hw ?_) hs
        change (l.received.get? k).map ServerRequest.generation = some q.generation
        rw [hq]
        rfl
      · cases hs
    · cases hs
  | discard g id =>
    cases hs
    refine ⟨h.requests.calm (calm_discardServerRequest l g id closed),
      h.answers.discardServerRequest g id closed, ?_⟩
    unfold Link.discardServerRequest
    simp only
    split
    · exact h.locked
    · exact h.locked.same rfl rfl
  | abort g =>
    cases hs
    exact h.abortGeneration ho
  | mark g =>
    cases hs
    exact h.markGenerationFailed _ ho
  | readerRaises g error =>
    rcases Runs.taken hs with ⟨_, rfl⟩
    exact h.aside (calm_readerRaises l g error) (mute_readerRaises l g error) rfl rfl
  | readerFails g error =>
    rcases Runs.taken hs with ⟨_, rfl⟩
    exact (h.markGenerationFailed error ho).aside
      (calm_of rfl rfl rfl rfl rfl rfl rfl rfl (.inl rfl))
      (mute_of rfl rfl rfl rfl rfl rfl rfl (silent _)) rfl rfl
  | readerStops g =>
    rcases Runs.taken hs with ⟨_, rfl⟩
    have hcalm : Calm l { l with readers := l.readers.erase g } :=
      ⟨rfl, fun _ => rfl, fun _ q _ hq ho => ⟨q, hq, ho⟩, List.Sublist.refl _, rfl, rfl, rfl,
        List.erase_sublist, rfl, .inl rfl⟩
    exact h.aside hcalm (mute_of rfl rfl rfl rfl rfl rfl rfl (silent l)) rfl rfl
  | failPending i =>
    simp only [Link.next] at hs
    split at hs
    · rename_i g error _
      cases hs
      have hremoved : Sound { l with failers := l.failers.eraseIdx i } :=
        h.aside (calm_of rfl rfl rfl rfl rfl rfl rfl rfl (.inl rfl))
          (mute_of rfl rfl rfl rfl rfl rfl rfl (silent l)) rfl rfl
      exact hremoved.failGenerationPending g error
    · cases hs
  | closeStdin p =>
    rcases Runs.taken hs with ⟨_, rfl⟩
    refine h.aside (calm_of rfl rfl rfl rfl rfl rfl rfl rfl (.inl rfl)) ?_ rfl rfl
    exact ⟨rfl, List.Sublist.refl _, List.Sublist.refl _, fun _ hp => hp, rfl,
      fun _ hp => List.mem_cons_of_mem _ hp, fun _ _ hw => ⟨hw, id⟩, silent l⟩
  | exit p =>
    rcases Runs.taken hs with ⟨_, rfl⟩
    exact h.aside (calm_of rfl rfl rfl rfl rfl rfl rfl rfl (.inl rfl))
      (mute_of rfl rfl rfl rfl rfl rfl rfl (silent l)) rfl rfl

section

variable (h : l.Sound)

include h

theorem Sound.register {g n : Nat} {method : String} {requireReady : Bool}
    (hr : l.register env g method requireReady = .ok (n, t)) : t.Sound :=
  ⟨h.requests.register hr, h.answers.mute (mute_register hr), h.locked.register h.requests hr⟩

theorem Sound.spawn (hclosed : l.generation = 0 ∨ l.generation ∈ l.stdinClosed) :
    l.spawn.Sound :=
  ⟨h.requests.spawn, h.answers.spawn hclosed, h.locked.same rfl rfl⟩

theorem Sound.clearReady {g : Nat} (hidle : l.isAnswering g = false) :
    (l.clearReady g).Sound where
  requests := h.requests.calm (calm_of rfl rfl rfl rfl rfl rfl rfl rfl (.inr ⟨.failed g, rfl, rfl⟩))
  answers := (h.answers.fail hidle).mute (mute_of rfl rfl rfl rfl rfl rfl rfl (silent _))
  locked := h.locked.same rfl rfl

theorem Sound.discardGeneration (g : Nat) : (l.discardGeneration g).Sound :=
  h.aside (calm_of rfl rfl rfl rfl rfl rfl rfl rfl (.inl rfl)) (mute_discardGeneration l g) rfl rfl

theorem Sound.closePipe (p : Nat) :
    Sound { l with stdinClosed := p :: l.stdinClosed } := by
  refine h.aside (calm_of rfl rfl rfl rfl rfl rfl rfl rfl (.inl rfl)) ?_ rfl rfl
  exact ⟨rfl, List.Sublist.refl _, List.Sublist.refl _, fun _ hp => hp, rfl,
    fun _ hp => List.mem_cons_of_mem _ hp, fun _ _ hw => ⟨hw, id⟩, silent l⟩

theorem Sound.clearProcess (g : Nat) (process : Option Nat) :
    (l.clearProcess g process).Sound := by
  refine h.aside (calm_of rfl rfl rfl rfl rfl rfl rfl rfl (.inl rfl)) ?_ rfl rfl
  refine ⟨rfl, List.Sublist.refl _, List.Sublist.refl _, ?_, rfl, fun _ hp => hp,
    fun _ _ hw => ⟨hw, id⟩, silent l⟩
  intro p hp
  unfold Link.clearProcess at hp
  simp only at hp
  split at hp
  · cases hp
  · exact hp

end

theorem flush_notice {p g : Nat} {result : Pipe} (hs : l.flush ⟨.notice, p⟩ g result = some t) :
    t.generation = l.generation ∧ t.stdinClosed = l.stdinClosed ∧ t.writer = none := by
  have hbroke : ∀ error, (l.writeBroke ⟨.notice, p⟩ g error).generation = l.generation ∧
      (l.writeBroke ⟨.notice, p⟩ g error).stdinClosed = l.stdinClosed ∧
      (l.writeBroke ⟨.notice, p⟩ g error).writer = none := by
    intro error
    unfold Link.writeBroke Link.writeFails Link.markGenerationFailed
    simp only
    split
    · exact ⟨rfl, rfl, rfl⟩
    · exact ⟨rfl, rfl, rfl⟩
  cases result with
  | written =>
    rcases Option.ite_none_left_eq_some.mp hs with ⟨_, hs⟩
    cases hs
    exact ⟨rfl, rfl, rfl⟩
  | broken =>
    cases hs
    exact hbroke _
  | short =>
    rcases Option.ite_none_left_eq_some.mp hs with ⟨_, hs⟩
    cases hs
    exact hbroke _

theorem Sound.flags (h : l.Sound) (ready : Bool) (dispatch : Option Nat)
    (failers : List (Nat × ClientError)) (closers : List Nat) :
    Sound { l with
      ready := ready
      dispatchGeneration := dispatch
      failers := failers
      closers := closers } :=
  h.aside (calm_of rfl rfl rfl rfl rfl rfl rfl rfl (.inl rfl))
    (mute_of rfl rfl rfl rfl rfl rfl rfl (silent l)) rfl rfl

theorem Sound.startNotice (h : l.Sound) (hw : l.writer = none) (p : Nat) :
    Sound { l with writer := some ⟨.notice, p⟩ } where
  requests := h.requests.calm (calm_of rfl rfl rfl rfl rfl rfl rfl rfl (.inl rfl))
  answers := h.answers.mute ⟨rfl, List.Sublist.refl _, List.Sublist.refl _, fun _ hp => hp, rfl,
    fun _ hp => hp, fun _ _ hw => (by cases hw), silent l⟩
  locked := by
    intro n
    constructor
    · rintro ⟨r, hr⟩
      cases hr
    · intro hs
      obtain ⟨r, hr⟩ := (h.locked n).mpr hs
      rw [hw] at hr
      cases hr

theorem Sound.failAllPending (h : l.Sound) : l.failAllPending.Sound where
  requests := h.requests.failAllPending
  answers := h.answers.mute (mute_of rfl rfl rfl rfl rfl rfl rfl (silent l))
  locked := h.locked.same rfl rfl

theorem sound_initial : Link.initial.Sound where
  requests := requests_initial
  answers := answers_initial
  locked := by
    intro n
    constructor
    · rintro ⟨p, hp⟩
      cases hp
    · intro hs
      cases hs

end

end Link

/-! ## The whole client -/

def Activation.target : Activation → Option Nat
  | .aborting generation | .abandoning generation => some generation
  | _ => none

namespace Client

/-- The supervisor's generation is the last, and its pipe is closed before the next. -/
structure Torn (s : Client) : Prop where
  current : s.current = 0 ∨ s.current = s.link.generation
  closed : s.current = 0 ∨ s.phase = .stopped →
    s.link.generation = 0 ∨ s.link.generation ∈ s.link.stdinClosed
  outside : s.phase = .unstarted ∨ s.phase = .resting ∨ (∃ masked, s.phase = .launching masked) →
    s.current = 0
  notice : (∃ p, s.link.writer = some ⟨.notice, p⟩) ↔ s.phase = .notifying

/-- The step keeps the order that the source relies on. -/
def Orderly (env : Settings) (s : Client) : Step → Prop
  | .link step => s.link.Orderly env s.closed step
  | .flushNotice .broken | .flushNotice .short | .clearReady =>
    s.link.isAnswering s.current = false
  | .activateAbort i | .activateAbandon i =>
    ∀ a g, s.activations.get? i = some a → a.target = some g →
      (s.link.abortGeneration g s.closed).1 = true → s.link.isAnswering g = false
  | _ => True

instance (env : Settings) (s : Client) : (step : Step) → Decidable (s.Orderly env step)
  | .link step => inferInstanceAs (Decidable (s.link.Orderly env s.closed step))
  | .flushNotice .broken | .flushNotice .short | .clearReady => inferInstanceAs
      (Decidable (s.link.isAnswering s.current = false))
  | .activateAbort i | .activateAbandon i => decidable_of_iff
      (∀ a ∈ s.activations.get? i, ∀ g ∈ a.target,
        (s.link.abortGeneration g s.closed).1 = true → s.link.isAnswering g = false)
      ⟨fun h a g ha hg => h a ha g hg, fun h a ha g hg => h a g ha hg⟩
  | .start | .leave | .prepare _ | .spawn _ | .callInitialize | .initialized | .dispatch
  | .startNotice | .flushNotice .written | .look | .configRead | .judge | .confirm | .expose
  | .activateGeneration | .joined | .fail | .restoreOnFailure | .failPending | .discardRequests
  | .stopProcess | .dropProcess | .activate _ | .activateRestore _ | .activateEnd _
  | .activateExpire _ | .activateLook _ | .activateWithdraw _ | .closeBegin | .closeClear
  | .closeMask | .failAllPending => isTrue trivial

structure Inv (s : Client) : Prop where
  sound : s.link.Sound
  torn : s.Torn

theorem inv_initial : Client.initial.Inv where
  sound := Link.sound_initial
  torn := by
    refine ⟨.inl rfl, fun _ => .inl rfl, fun _ => rfl, ?_⟩
    simp [Client.initial, Link.initial]

section

variable {s t : Client} {env : Settings}

theorem Torn.move (h : s.Torn) (hcore : Link.Core s.link t.link) (hcurrent : t.current = s.current)
    (hstopped : t.phase ≠ .stopped) (houtside : t.phase = .unstarted ∨ t.phase = .resting ∨
      (∃ masked, t.phase = .launching masked) →
      s.current = 0) (hnotice : s.phase = .notifying ↔ t.phase = .notifying) : t.Torn where
  current := by
    rw [hcurrent, hcore.generation]
    exact h.current
  closed hc := by
    rw [hcurrent] at hc
    rw [hcore.generation]
    rcases h.closed (.inl (hc.resolve_right hstopped)) with hz | hm
    · exact .inl hz
    · exact .inr (hcore.stdinClosed _ hm)
  outside ho := by
    rw [hcurrent]
    exact houtside ho
  notice := by
    simp only [hcore.notice]
    exact h.notice.trans hnotice

theorem Torn.beside (h : s.Torn) (hcore : Link.Core s.link t.link)
    (hcurrent : t.current = s.current) (hphase : t.phase = s.phase) : t.Torn where
  current := by
    rw [hcurrent, hcore.generation]
    exact h.current
  closed hc := by
    rw [hcurrent, hphase] at hc
    rw [hcore.generation]
    rcases h.closed hc with hz | hm
    · exact .inl hz
    · exact .inr (hcore.stdinClosed _ hm)
  outside ho := by
    rw [hphase] at ho
    rw [hcurrent]
    exact h.outside ho
  notice := by
    simp only [hcore.notice, hphase]
    exact h.notice

def isInside : Phase → Bool
  | .unstarted | .resting | .launching _ | .stopped | .notifying => false
  | _ => true

theorem Inv.move (h : s.Inv) (hsound : t.link.Sound) (hcore : Link.Core s.link t.link)
    (hcurrent : t.current = s.current) (hbefore : s.phase ≠ .notifying)
    (hafter : isInside t.phase = true) : t.Inv where
  sound := hsound
  torn := by
    refine h.torn.move hcore hcurrent ?_ ?_ ?_
    · intro he
      rw [he] at hafter
      cases hafter
    · rintro (he | he | ⟨masked, he⟩)
      · rw [he] at hafter
        cases hafter
      · rw [he] at hafter
        cases hafter
      · rw [he] at hafter
        cases hafter
    · constructor
      · intro he
        exact absurd he hbefore
      · intro he
        rw [he] at hafter
        cases hafter

theorem Inv.beside (h : s.Inv) (hsound : t.link.Sound) (hcore : Link.Core s.link t.link)
    (hcurrent : t.current = s.current) (hphase : t.phase = s.phase) : t.Inv :=
  ⟨hsound, h.torn.beside hcore hcurrent hphase⟩

theorem Inv.call (h : s.Inv) (method : String) {next : Nat → Phase}
    (hbefore : s.phase ≠ .notifying) (hafter : ∀ n, isInside (next n) = true) :
    (s.call env method next).Inv := by
  unfold Client.call
  split
  · rename_i n link hr
    have hcore : Link.Core s.link link := by
      obtain ⟨-, -, rfl⟩ := Link.register_spec hr
      exact Link.core_of rfl rfl rfl rfl rfl
    exact h.move (h.sound.register hr) hcore rfl hbefore (hafter n)
  · exact h.move h.sound (Link.core_refl _) rfl hbefore rfl

variable {n : Nat}

theorem Inv.await (h : s.Inv) {next : Json → Client} (hbefore : s.phase ≠ .notifying)
    (hnext : ∀ value, (next value).Inv) (ha : s.await n next = some t) : t.Inv := by
  unfold Client.await at ha
  split at ha
  · cases ha
    exact hnext _
  · cases ha
    exact h.move h.sound (Link.core_refl _) rfl hbefore rfl
  · cases ha

theorem restore_link (s : Client) (g : Option Nat) :
    (s.restoreMcpBootstrap g).link = s.link ∧ (s.restoreMcpBootstrap g).current = s.current ∧
      (s.restoreMcpBootstrap g).phase = s.phase := by
  unfold restoreMcpBootstrap
  split
  · exact ⟨rfl, rfl, rfl⟩
  · exact ⟨rfl, rfl, rfl⟩

theorem activate_link (s : Client) (g : Nat) :
    (s.activateMcpGeneration g).link = s.link ∧ (s.activateMcpGeneration g).current =
      s.current := by
  unfold activateMcpGeneration
  split
  · exact ⟨rfl, rfl⟩
  · exact ⟨rfl, rfl⟩

theorem Inv.supervise {step : Step} (h : s.Inv) (ho : Orderly env s step)
    (hn : s.superviseNext env step = some t) : t.Inv := by
  cases step with
  | start =>
    rcases Runs.taken hn with ⟨hguard, rfl⟩
    have h0 := h.torn.outside (.inl hguard.1)
    refine ⟨h.sound, h.torn.move (Link.core_refl _) rfl (by simp) (fun _ => h0) ?_⟩
    simp [hguard.1]
  | leave =>
    rcases Runs.taken hn with ⟨hguard, rfl⟩
    exact h.move h.sound (Link.core_refl _) rfl (by simp [hguard.1]) rfl
  | prepare overrides =>
    rcases Runs.enabled hn with ⟨hguard, hn⟩
    split at hn
    · cases hn
      exact h.move h.sound (Link.core_refl _) rfl (by simp [hguard.1]) rfl
    cases hn
    have h0 := h.torn.outside (.inr (.inl hguard.1))
    refine ⟨h.sound, h.torn.move (Link.core_refl _) rfl (by simp) (fun _ => h0) ?_⟩
    simp [hguard.1]
  | spawn started =>
    simp only [superviseNext] at hn
    split at hn
    · rename_i masked hphase
      have h0 := h.torn.outside (.inr (.inr ⟨masked, hphase⟩))
      have hclosed := h.torn.closed (.inl h0)
      split at hn
      · cases hn
        refine ⟨h.sound.spawn hclosed, ⟨.inr rfl, ?_, ?_, ?_⟩⟩
        · rintro (he | he)
          · cases he
          · cases he
        · rintro (he | he | ⟨masked, he⟩)
          · cases he
          · cases he
          · cases he
        · constructor
          · intro hw
            have hnotifying := h.torn.notice.mp hw
            rw [hphase] at hnotifying
            cases hnotifying
          · intro he
            cases he
      · cases hn
        exact h.move h.sound (Link.core_refl _) rfl (by simp [hphase]) rfl
    · cases hn
  | callInitialize =>
    obtain ⟨hphase, rfl⟩ := inPhase_spec hn
    exact h.call _ (by simp [hphase]) fun _ => rfl
  | initialized =>
    simp only [superviseNext] at hn
    split at hn
    · rename_i n hphase
      refine h.await (by simp [hphase]) ?_ hn
      intro value
      refine h.move h.sound (Link.core_refl _) rfl (by simp [hphase]) ?_
      simp only
      split <;> rfl
    · cases hn
  | dispatch =>
    obtain ⟨hphase, rfl⟩ := inPhase_spec hn
    split
    · exact h.move (h.sound.flags _ _ _ _) (Link.core_of rfl rfl rfl rfl rfl) rfl (by simp [hphase])
        rfl
    · exact h.move h.sound (Link.core_refl _) rfl (by simp [hphase]) rfl
  | startNotice =>
    rcases Runs.enabled hn with ⟨hguard, hn⟩
    split at hn
    · rename_i p hp
      cases hn
      refine ⟨h.sound.startNotice hguard.2 p, ⟨h.torn.current, ?_, ?_, ?_⟩⟩
      · rintro (he | he)
        · exact h.torn.closed (.inl he)
        · cases he
      · rintro (he | he | ⟨masked, he⟩)
        · cases he
        · cases he
        · cases he
      · simp
    · cases hn
      exact h.move h.sound (Link.core_refl _) rfl (by simp [hguard.1]) rfl
  | flushNotice result =>
    simp only [superviseNext] at hn
    split at hn
    · rename_i p hphase hw
      obtain ⟨link, hflush, rfl⟩ := Option.map_eq_some_iff.mp hn
      have hidle : result ≠ .written → s.link.isAnsweringBeside .notice s.current = false := by
        intro hr
        cases result with
        | written => exact absurd rfl hr
        | broken => exact ho
        | short => exact ho
      have hsound := h.sound.flush hw hidle hflush
      obtain ⟨hgeneration, hclosed, hwriter⟩ := Link.flush_notice hflush
      refine ⟨hsound, ⟨?_, ?_, ?_, ?_⟩⟩
      · rw [hgeneration]
        exact h.torn.current
      · intro hc
        rw [hgeneration, hclosed]
        refine h.torn.closed (hc.imp_right fun he => ?_)
        simp only at he
        split at he
        · cases he
        · cases he
      · simp only
        rintro (he | he | ⟨masked, he⟩)
        · split at he
          · cases he
          · cases he
        · split at he
          · cases he
          · cases he
        · split at he
          · cases he
          · cases he
      · simp only [hwriter]
        constructor
        · rintro ⟨r, hr⟩
          cases hr
        · intro he
          split at he
          · cases he
          · cases he
    · cases hn
  | look =>
    obtain ⟨hphase, rfl⟩ := inPhase_spec hn
    unfold lookAtStartupState
    split
    · exact h.call _ (by simp [hphase]) fun _ => rfl
    · exact h.move h.sound (Link.core_refl _) rfl (by simp [hphase]) rfl
  | configRead =>
    simp only [superviseNext] at hn
    split at hn
    · rename_i n hphase
      refine h.await (by simp [hphase]) ?_ hn
      intro value
      split
      · exact h.move h.sound (Link.core_refl _) rfl (by simp [hphase]) rfl
      · exact h.move h.sound (Link.core_refl _) rfl (by simp [hphase]) rfl
    · cases hn
  | judge =>
    simp only [superviseNext] at hn
    split at hn
    · rename_i effective hphase
      cases hn
      unfold judgeConfig
      split
      · exact h.move h.sound (Link.core_refl _) rfl (by simp [hphase]) rfl
      split
      · exact h.move h.sound (Link.core_refl _) rfl (by simp [hphase]) rfl
      · exact h.move h.sound (Link.core_refl _) rfl (by simp [hphase]) rfl
    · cases hn
  | confirm =>
    obtain ⟨hphase, rfl⟩ := inPhase_spec hn
    refine h.move h.sound (Link.core_refl _) rfl (by simp [hphase]) ?_
    simp only
    split <;> rfl
  | expose =>
    obtain ⟨hphase, rfl⟩ := inPhase_spec hn
    refine ⟨h.sound.flags true _ _ _, ⟨h.torn.current, ?_, ?_, ?_⟩⟩
    · rintro (he | he)
      · exact h.torn.closed (.inl he)
      · cases he
    · rintro (he | he | ⟨masked, he⟩)
      · cases he
      · cases he
      · cases he
    · refine h.torn.notice.trans ?_
      simp [hphase]
  | activateGeneration =>
    obtain ⟨hphase, rfl⟩ := inPhase_spec hn
    obtain ⟨hlink, hcurrent⟩ := activate_link s s.current
    refine h.move ?_ ?_ hcurrent (by simp [hphase]) rfl
    · simp only [hlink]
      exact h.sound
    · simp only [hlink]
      exact Link.core_refl _
  | joined =>
    rcases Runs.taken hn with ⟨hguard, rfl⟩
    refine h.move ?_ ?_ rfl (by simp [hguard.1]) rfl
    · simp only
      split
      · exact h.sound
      · exact h.sound.flags _ _ _ _
    · simp only
      split
      · exact Link.core_refl _
      · exact Link.core_of rfl rfl rfl rfl rfl
  | fail =>
    rcases Runs.taken hn with ⟨htrying, rfl⟩
    refine h.move h.sound (Link.core_refl _) rfl ?_ rfl
    intro he
    rw [he] at htrying
    cases htrying
  | restoreOnFailure =>
    obtain ⟨hphase, rfl⟩ := inPhase_spec hn
    obtain ⟨hlink, hcurrent, -⟩ := restore_link s (some s.current)
    refine h.move ?_ ?_ hcurrent (by simp [hphase]) rfl
    · simp only [hlink]
      exact h.sound
    · simp only [hlink]
      exact Link.core_refl _
  | clearReady =>
    obtain ⟨hphase, rfl⟩ := inPhase_spec hn
    refine h.move (h.sound.clearReady ho) ?_ rfl (by simp [hphase]) rfl
    exact ⟨rfl, rfl, fun _ hp => hp, fun hr => (Bool.false_ne_true hr).elim, fun _ => Iff.rfl⟩
  | failPending =>
    obtain ⟨hphase, rfl⟩ := inPhase_spec hn
    exact h.move (h.sound.failGenerationPending _ _) (Link.core_failGenerationPending _ _ _) rfl
      (by simp [hphase]) rfl
  | discardRequests =>
    obtain ⟨hphase, rfl⟩ := inPhase_spec hn
    exact h.move (h.sound.discardGeneration _) (Link.core_of rfl rfl rfl rfl rfl) rfl
      (by simp [hphase]) rfl
  | stopProcess =>
    obtain ⟨hphase, rfl⟩ := inPhase_spec hn
    refine ⟨h.sound.closePipe _, ⟨h.torn.current, ?_, ?_, ?_⟩⟩
    · intro _
      rcases h.torn.current with h0 | hg
      · rcases h.torn.closed (.inl h0) with hz | hm
        · exact .inl hz
        · exact .inr (List.mem_cons_of_mem _ hm)
      · rw [hg]
        exact .inr List.mem_cons_self
    · rintro (he | he | ⟨masked, he⟩)
      · cases he
      · cases he
      · cases he
    · refine h.torn.notice.trans ?_
      simp [hphase]
  | dropProcess =>
    obtain ⟨hphase, rfl⟩ := inPhase_spec hn
    refine ⟨h.sound.clearProcess _ _, ⟨.inl rfl, fun _ => h.torn.closed (.inr hphase),
      fun _ => rfl, ?_⟩⟩
    refine h.torn.notice.trans ?_
    unfold Client.dropProcess
    simp only [hphase]
    split <;> simp
  | _ => cases hn

theorem Inv.activate {step : Step} (h : s.Inv) (ho : Orderly env s step)
    (hn : s.activateNext env step = some t) : t.Inv := by
  cases step with
  | activate i =>
    rcases Runs.taken hn with ⟨_, rfl⟩
    unfold beginActivation
    split
    · exact h.beside h.sound (Link.core_refl _) rfl rfl
    split
    · exact h.beside h.sound (Link.core_refl _) rfl rfl
    · exact h.beside h.sound (Link.core_refl _) rfl rfl
  | activateAbort i =>
    obtain ⟨a, ha, hact⟩ := inActivation_spec hn
    split at hact
    · rename_i g
      cases hact
      have hcore := Link.core_abortGeneration s.link g s.closed
      have hsound := h.sound.abortGeneration (ho _ g ha rfl)
      unfold abortForActivation
      generalize s.link.abortGeneration g s.closed = result at hcore hsound
      obtain ⟨aborted, link⟩ := result
      cases aborted with
      | true => exact h.beside hsound hcore rfl rfl
      | false => exact h.beside h.sound (Link.core_refl _) rfl rfl
    · cases hact
  | activateRestore i =>
    obtain ⟨a, ha, hact⟩ := inActivation_spec hn
    split at hact
    · rename_i g
      cases hact
      obtain ⟨hlink, hcurrent, hphase⟩ := restore_link s (some (g + 1))
      refine h.beside ?_ ?_ hcurrent hphase
      · exact hlink ▸ h.sound
      · exact hlink ▸ Link.core_refl _
    · cases hact
  | activateEnd i =>
    obtain ⟨a, ha, hact⟩ := inActivation_spec hn
    split at hact
    · rcases Runs.taken hact with ⟨_, rfl⟩
      unfold endActivation
      split
      · exact h.beside h.sound (Link.core_refl _) rfl rfl
      · exact h.beside h.sound (Link.core_refl _) rfl rfl
    · cases hact
  | activateExpire i =>
    obtain ⟨a, ha, hact⟩ := inActivation_spec hn
    split at hact
    · split at hact
      · cases hact
      · cases hact
        exact h.beside h.sound (Link.core_refl _) rfl rfl
    · cases hact
  | activateLook i =>
    obtain ⟨a, ha, hact⟩ := inActivation_spec hn
    split at hact
    · cases hact
      exact h.beside h.sound (Link.core_refl _) rfl rfl
    · cases hact
  | activateWithdraw i =>
    obtain ⟨a, ha, hact⟩ := inActivation_spec hn
    split at hact
    · cases hact
      obtain ⟨hlink, hcurrent, hphase⟩ := restore_link s none
      refine h.beside ?_ ?_ hcurrent hphase
      · exact hlink ▸ h.sound
      · exact hlink ▸ Link.core_refl _
    · cases hact
  | activateAbandon i =>
    obtain ⟨a, ha, hact⟩ := inActivation_spec hn
    split at hact
    · rename_i g
      cases hact
      exact h.beside (h.sound.abortGeneration (ho _ g ha rfl))
        (Link.core_abortGeneration s.link g s.closed) rfl rfl
    · cases hact
  | _ => cases hn

theorem Inv.close (step : Step) (h : s.Inv) (hn : s.closeNext step = some t) : t.Inv := by
  cases step with
  | closeBegin =>
    rcases Runs.taken hn with ⟨_, rfl⟩
    exact h.beside h.sound (Link.core_refl _) rfl rfl
  | closeClear =>
    rcases Runs.taken hn with ⟨_, rfl⟩
    refine h.beside (h.sound.flags _ _ _ _) ?_ rfl rfl
    exact ⟨rfl, rfl, fun _ hp => hp, fun hr => (Bool.false_ne_true hr).elim, fun _ => Iff.rfl⟩
  | closeMask =>
    rcases Runs.taken hn with ⟨_, rfl⟩
    exact h.beside (h.sound.flags _ _ _ _) (Link.core_of rfl rfl rfl rfl rfl) rfl rfl
  | failAllPending =>
    rcases Runs.taken hn with ⟨_, rfl⟩
    exact h.beside h.sound.failAllPending (Link.core_of rfl rfl rfl rfl rfl) rfl rfl
  | _ => cases hn

theorem Inv.next {step : Step} (h : s.Inv) (ho : Orderly env s step)
    (hn : s.next env step = some t) : t.Inv := by
  rcases next_cases hn with ⟨step, link, rfl, hlink, rfl⟩ | hn | hn | hn
  · exact h.beside (h.sound.next ho hlink) (Link.core_next hlink) rfl rfl
  · exact h.supervise ho hn
  · exact h.activate ho hn
  · exact h.close step hn

/-! ## Every request can end -/

def CanEnd (env : Settings) (s : Client) (n : Nat) : Prop :=
  ∃ steps t, Runs.exec (Client.next env) s steps = some t ∧ ∃ o, .ended n o ∈ t.link.trace

theorem CanEnd.after {step : Step} (hn : s.next env step = some t)
    (ht : CanEnd env t n) : CanEnd env s n := by
  obtain ⟨steps, u, hu, ho⟩ := ht
  exact ⟨step :: steps, u, (Runs.exec_cons_eq_some_iff _ _ _ _).mpr ⟨t, hn, hu⟩, ho⟩

theorem canEnd_of_ended {o : Outcome} (h : .ended n o ∈ s.link.trace) : CanEnd env s n :=
  ⟨[], s, rfl, o, h⟩

theorem next_link {step : LinkStep} {l : Link} (hfree : s.phase ≠ .confirmed)
    (h : s.link.next env s.closed step = some l) :
    s.next env (.link step) = some { s with link := l } := by
  rw [next_of_take hfree]
  change (s.link.next env s.closed step).map _ = _
  rw [h]
  rfl

variable {q : Request}

theorem canEnd_of_raising {error : ClientError}
    (hfree : s.phase ≠ .confirmed) (hq : s.link.requests.get? n = some q)
    (hstage : q.stage = .raising error) :
    CanEnd env s n := by
  have hstep : s.link.next env s.closed (.abandon n) = some (s.link.abandon n q error) := by
    simp only [Link.next, hq, hstage]
  exact CanEnd.after (next_link hfree hstep) (canEnd_of_ended List.mem_cons_self)

section

variable (hfree : s.phase ≠ .confirmed) (hq : s.link.requests.get? n = some q)

include hfree hq

theorem canEnd_of_overtaken (hstage : q.stage = .overtaken) : CanEnd env s n := by
  have hstep : s.link.next env s.closed (.conclude n) = some (s.link.conclude n q) := by
    simp only [Link.next, Link.atStage, hq, hstage, decide_true, if_true]
  exact CanEnd.after (next_link hfree hstep) (canEnd_of_ended List.mem_cons_self)

theorem canEnd_of_expired (hstage : q.stage = .expired) : CanEnd env s n := by
  have hstep : s.link.next env s.closed (.withdraw n) = some (s.link.withdraw n q) := by
    simp only [Link.next, Link.atStage, hq, hstage, decide_true, if_true]
  refine CanEnd.after (next_link hfree hstep) ?_
  unfold Link.withdraw
  simp only
  split
  · exact canEnd_of_ended List.mem_cons_self
  refine canEnd_of_overtaken (q := { q with stage := .overtaken }) hfree ?_ rfl
  change (s.link.setStage n .overtaken).requests.get? n = _
  rw [Link.get?_setStage, if_pos rfl, hq]
  rfl

theorem canEnd_of_waiting (hstage : q.stage = .waiting) : CanEnd env s n := by
  obtain ⟨g, method, stage, future⟩ := q
  simp only at hstage
  subst hstage
  cases future with
  | some o =>
    have hstep : s.link.next env s.closed (.deliver n) = some (s.link.endRequest n o) := by
      simp only [Link.next, hq]
    exact CanEnd.after (next_link hfree hstep) (canEnd_of_ended List.mem_cons_self)
  | none =>
    have hstep : s.link.next env s.closed (.expire n) = some (s.link.setStage n .expired) := by
      simp only [Link.next, hq]
    refine CanEnd.after (next_link hfree hstep)
      (canEnd_of_expired (q := ⟨g, method, .expired, none⟩) hfree ?_ rfl)
    change (s.link.setStage n .expired).requests.get? n = _
    rw [Link.get?_setStage, if_pos rfl, hq]
    rfl

end

theorem get?_writeBroke {l : Link} {w : Writing} {g n : Nat} (error : ClientError)
    (hq : l.requests.get? n = some q) : (l.writeBroke w g error).requests.get? n =
      some (if w.payload = .request n then { q with stage := .raising error } else q) := by
  have hmarked : (Link.markGenerationFailed { l with writer := none } g error).requests.get? n =
      some q := by
    rw [(Link.marked_requests _ g error).1]
    exact hq
  unfold Link.writeBroke Link.writeFails
  obtain ⟨payload, p⟩ := w
  cases payload with
  | request m =>
    simp only
    rw [Link.get?_setStage, hmarked]
    by_cases hm : n = m
    · rw [if_pos hm, if_pos (by rw [hm])]
      rfl
    · rw [if_neg hm, if_neg fun he => hm (by cases he; rfl)]
  | answer k => exact hmarked
  | notice => exact hmarked

theorem canEnd_of_writing (hfree : s.phase ≠ .confirmed) (hq : s.link.requests.get? n = some q)
    {p : Nat} (hw : s.link.writer = some ⟨.request n, p⟩) : CanEnd env s n := by
  have hstep : s.link.next env s.closed (.flush .broken) =
      some (s.link.writeBroke ⟨.request n, p⟩ q.generation .unavailable) := by
    simp only [Link.next, hw, hq, Link.flush]
  refine CanEnd.after (next_link hfree hstep)
    (canEnd_of_raising (q := { q with stage := .raising .unavailable }) hfree ?_ rfl)
  have hget := get?_writeBroke (w := ⟨.request n, p⟩) (g := q.generation) .unavailable hq
  rw [if_pos rfl] at hget
  exact hget

theorem canEnd_of_registered (hfree : s.phase ≠ .confirmed) (hq : s.link.requests.get? n = some q)
    (hstage : q.stage = .registered) (hw : s.link.writer = none) : CanEnd env s n := by
  have hstep : s.link.next env s.closed (.startWrite n) =
      some (s.link.startWrite (.request n) q.generation) := by
    simp only [Link.next, Link.atStage, hw, hq, hstage, decide_true, if_true]
  refine CanEnd.after (next_link hfree hstep) ?_
  unfold Link.startWrite
  split
  · refine canEnd_of_raising (q := { q with stage := .raising .unavailable }) hfree ?_ rfl
    change (s.link.setStage n _).requests.get? n = _
    rw [Link.get?_setStage, if_pos rfl, hq]
    rfl
  · rename_i p _
    refine canEnd_of_writing (q := { q with stage := .writing }) (p := p) hfree ?_ rfl
    change (s.link.setStage n _).requests.get? n = _
    rw [Link.get?_setStage, if_pos rfl, hq]
    rfl

/-- The holder of the write lock lets go of it, whatever it writes. -/
theorem Inv.free (h : s.Inv) (hfree : s.phase ≠ .confirmed) {w : Writing}
    (hw : s.link.writer = some w) :
    ∃ step g phase, phase ≠ .confirmed ∧ s.next env step =
      some { s with link := s.link.writeBroke w g .unavailable, phase := phase } := by
  obtain ⟨payload, p⟩ := w
  cases payload with
  | request m =>
    have hstage := (h.sound.locked m).mp ⟨p, hw⟩
    obtain ⟨q, hq, -⟩ := Option.map_eq_some_iff.mp hstage
    refine ⟨.link (.flush .broken), q.generation, s.phase, hfree, next_link hfree ?_⟩
    simp only [Link.next, hw, hq, Link.flush]
  | answer k =>
    obtain ⟨-, -, q, hq, -⟩ := h.sound.answers.writer k p hw
    refine ⟨.link (.flush .broken), q.generation, s.phase, hfree, next_link hfree ?_⟩
    simp only [Link.next, hw, hq, Link.flush]
  | notice =>
    have hphase := h.torn.notice.mp ⟨p, hw⟩
    refine ⟨.flushNotice .broken, s.current, .failing, by simp, ?_⟩
    rw [next_of_take hfree]
    change s.superviseNext env (.flushNotice .broken) = _
    simp only [superviseNext, hphase, hw, Link.flush]
    rfl

theorem Inv.canEnd_of_free (h : s.Inv) (hfree : s.phase ≠ .confirmed) {n : Nat}
    (hq : s.link.requests.get? n = some q) : (∃ o, q.stage = .ended o) ∨ CanEnd env s n := by
  cases hstage : q.stage with
  | ended o => exact .inl ⟨o, rfl⟩
  | raising error => exact .inr (canEnd_of_raising hfree hq hstage)
  | overtaken => exact .inr (canEnd_of_overtaken hfree hq hstage)
  | expired => exact .inr (canEnd_of_expired hfree hq hstage)
  | waiting => exact .inr (canEnd_of_waiting hfree hq hstage)
  | writing =>
    have hs : s.link.stageOf n = some .writing := by
      rw [Link.stageOf_of_get? hq, hstage]
    obtain ⟨p, hw⟩ := (h.sound.locked n).mpr hs
    exact .inr (canEnd_of_writing hfree hq hw)
  | registered =>
    cases hw : s.link.writer with
    | none => exact .inr (canEnd_of_registered hfree hq hstage hw)
    | some w =>
      have hexit : ∃ step g phase, phase ≠ .confirmed ∧ s.next env step =
          some { s with link := s.link.writeBroke w g .unavailable, phase := phase } :=
        h.free hfree hw
      obtain ⟨step, g, phase, hphase, hstep⟩ := hexit
      have hother : w.payload ≠ .request n := by
        intro he
        have hs := (h.sound.locked n).mp ⟨w.stream, by rw [hw, ← he]⟩
        rw [Link.stageOf_of_get? hq, hstage] at hs
        cases hs
      have hget := get?_writeBroke (w := w) (g := g) .unavailable hq
      rw [if_neg hother] at hget
      refine .inr (CanEnd.after hstep (canEnd_of_registered hphase hget hstage ?_))
      unfold Link.writeBroke
      have hwriter : (Link.markGenerationFailed { s.link with writer := none } g
          .unavailable).writer = none := (Link.marked_requests _ g _).2
      obtain ⟨payload, p⟩ := w
      cases payload with
      | request m => exact hwriter
      | answer k => exact hwriter
      | notice => exact hwriter

/-- In the section that sets the ready event, the supervisor leaves it first. -/
theorem Inv.canEnd (h : s.Inv) (hq : s.link.requests.get? n = some q) :
    (∃ o, q.stage = .ended o) ∨ CanEnd env s n := by
  by_cases hphase : s.phase = .confirmed
  · have hstep : s.next env .expose = some { s with
        link := { s.link with ready := true }
        phase := .exposed
        everReady := true
        exposures := ⟨s.current, s.mcpStartupState⟩ :: s.exposures } := by
      unfold Client.next
      rw [if_neg (by simp [isUnlocked])]
      change s.superviseNext env .expose = _
      simp only [superviseNext, inPhase, hphase, if_true]
    have horderly : Orderly env s .expose := trivial
    have hexposed := h.next horderly hstep
    have hrest : _ ∨ CanEnd env _ n := hexposed.canEnd_of_free (by simp) hq
    exact hrest.imp_right (CanEnd.after hstep)
  · exact h.canEnd_of_free hphase hq

end

/-- Requests and server requests are served as they should be; every request ends, or
can; and a late response changes nothing but the set of retired ids. -/
structure Correlated (s : Client) (env : Settings) : Prop where
  requests : Always RequestRight s.link.trace
  answers : Always AnswerRight s.link.trace
  ends : ∀ g n, .registered g n ∈ s.link.trace → (∃ o, .ended n o ∈ s.link.trace) ∨ CanEnd env s n
  swallows : ∀ g id body t, IsLate s.link.trace g id →
    Orderly env s (.link (.response g id body)) →
    s.next env (.link (.response g id body)) = some t →
    t = { s with link := { s.link with
      retiredIdSet := s.link.retiredIdSet.erase (g, id)
      trace := .response g id body .swallowed :: s.link.trace } }

/-- A late line finds its key retired and not pending. -/
theorem Inv.swallows {s : Client} {env : Settings} (h : s.Inv) {g : Nat} {id : RequestId}
    {body : Body} {t : Client} (hlate : IsLate s.link.trace g id)
    (ho : Orderly env s (.link (.response g id body)))
    (hn : s.next env (.link (.response g id body)) = some t) :
    t = { s with link := { s.link with
      retiredIdSet := s.link.retiredIdSet.erase (g, id)
      trace := .response g id body .swallowed :: s.link.trace } } := by
  have hretired : .retired (g, id) ∈ s.link.trace := by
    obtain ⟨n, mid, earlier, rfl, ht, -, -⟩ := hlate
    have hright := h.sound.requests.right
    rw [ht] at hright
    obtain ⟨before, he⟩ := (hright.of_suffix (List.suffix_append mid _)).1
    rw [ht, he]
    simp [keyOf]
  have hset := h.sound.requests.late_mem hlate (ho hretired)
  have hpending := (h.sound.requests.retired _ hretired).1
  obtain ⟨link, hlink, rfl⟩ := Option.map_eq_some_iff.mp (next_spec hn).1
  rcases Runs.taken hlink with ⟨_, rfl⟩
  unfold Link.routeResponse
  simp only
  rw [if_neg hpending, if_pos hset]

/-- The run lemma: every run of orderly steps is correlated. -/
theorem run_correlated (env : Settings) {steps : List Step} {s : Client}
    (hm : Runs.Meets (Client.next env) (Client.Orderly env) Client.initial steps)
    (h : Runs.exec (Client.next env) Client.initial steps = some s) : s.Correlated env := by
  have hinv : s.Inv := Runs.invariant_of_meets (I := Inv)
    (fun _ _ _ hi ho hn => hi.next ho hn) inv_initial hm h
  have hattended := attended_run h
  refine ⟨hinv.sound.requests.right, hinv.sound.answers.right, ?_, ?_⟩
  · intro g n hr
    obtain ⟨q, hq⟩ := hattended.registered g n hr
    have hend : (∃ o, q.stage = .ended o) ∨ CanEnd env s n := hinv.canEnd hq
    rcases hend with ⟨o, ho⟩ | hcan
    · exact .inl ⟨o, hattended.ended n q o hq ho⟩
    · exact .inr hcan
  · intro g id body t hlate ho hn
    exact hinv.swallows hlate ho hn

def serveOnce : List Step :=
  [.link (.register 1 "thread/read" true), .link (.startWrite 3), .link (.flush .written),
    .link (.expire 3), .link (.withdraw 3), .link (.response 1 (.number 3) (.result .null)),
    .link (.serverRequest 0 ⟨1, .number 7⟩ true), .link (.invoke 0), .link (.respond 0),
    .link (.startAnswer 0), .link (.flush .written)]

/-- A callback raises after the server request was delivered and before it is answered. -/
def answerAfterFailure : List Step :=
  [.link (.serverRequest 0 ⟨1, .number 7⟩ true), .link (.invoke 0), .link (.mark 1),
    .link (.respond 0), .link (.startAnswer 0), .link (.flush .written)]

theorem run_correlated_serveOnce :
    (Runs.exec (Client.next plainSettings) Client.initial (startMasked ++ serveOnce)).isSome ∧
    ∀ s, Runs.exec (Client.next plainSettings) Client.initial (startMasked ++ serveOnce) = some s →
      s.Correlated plainSettings :=
  ⟨by decide +kernel, fun _ h => run_correlated plainSettings (by decide +kernel) h⟩

/-- An answer is written into a generation that has failed. -/
theorem answered_after_failure :
    ∃ s, Runs.exec (Client.next plainSettings) Client.initial
      (startMasked ++ answerAfterFailure) = some s ∧ ¬ s.Correlated plainSettings := by
  have hrun : (Runs.exec (Client.next plainSettings) Client.initial
      (startMasked ++ answerAfterFailure)).map (fun s => s.link.trace.take 2) =
        some [.answered 0 1, .failed 1] := by
    decide +kernel
  obtain ⟨s, hs, htrace⟩ := Option.map_eq_some_iff.mp hrun
  refine ⟨s, hs, ?_⟩
  intro h
  have hanswers := h.answers
  rw [← List.take_append_drop 2 s.link.trace, htrace] at hanswers
  obtain ⟨-, q, mid, earlier, -, hstream, -, hfailed, -⟩ := hanswers.1
  rw [← hstream] at hfailed
  exact hfailed List.mem_cons_self

end Client

end CodexBridge.AppServer
