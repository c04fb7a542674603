import CodexBridge.AppServer.Requests

/-! # Answers to server requests

A token is in the set, or the answer it was taken for is on its way, or the answer was
written; never two of these, as long as no id is used twice in a generation. An answer
on its way is of a generation that has not failed, if no generation fails while one is.
-/

namespace CodexBridge.AppServer

open Effect Traces

/-! ## What must hold of the trace -/

/-- An answer is written once, into the generation that asked; the request was not
discarded since it was received, and the generation has neither failed nor been replaced. -/
def AnswerRight : Event → List Event → Prop
  | .answered k stream, past =>
    (∀ p, .answered k p ∉ past) ∧
    ∃ q mid earlier, past = mid ++ .received k q :: earlier ∧ stream = q.generation ∧
      .discarded q.key ∉ mid ∧ .failed q.generation ∉ past ∧
      ∀ g, .spawned g ∈ past → g ≤ q.generation
  | _, _ => True

def Event.isRequest : Event → Bool
  | .received .. | .answered .. | .discarded _ | .failed _ | .spawned _ => false
  | _ => true

namespace Link

def isAnswering (l : Link) (g : Nat) : Bool :=
  l.answering.any fun k => (l.received.get? k).any fun q => q.generation = g

def hasFailed (l : Link) (g : Nat) : Bool := .failed g ∈ l.trace

def isNewKey (l : Link) (key : Key) : Bool := l.received.values.all fun q => q.key ≠ key

structure Answers (l : Link) : Prop where
  received : ∀ k q, l.received.get? k = some q → .received k q ∈ l.trace
  distinct : ∀ k k' q q', l.received.get? k = some q → l.received.get? k' = some q' →
    q.key = q'.key → k = k'
  tokensNodup : l.serverRequests.Nodup
  tokens : ∀ key ∈ l.serverRequests, .discarded key ∉ l.trace ∧
    ∃ k q, l.received.get? k = some q ∧ q.key = key ∧ k ∉ l.answering ∧
      ∀ p, .answered k p ∉ l.trace
  answeringNodup : l.answering.Nodup
  answering : ∀ k ∈ l.answering, ∃ q, l.received.get? k = some q ∧
    (∀ p, .answered k p ∉ l.trace) ∧ .discarded q.key ∉ l.trace ∧ l.hasFailed q.generation = false
  discarded : ∀ key, .discarded key ∈ l.trace → ∃ k q, l.received.get? k = some q ∧ q.key = key
  answered : ∀ k p, .answered k p ∈ l.trace → ∃ q, l.received.get? k = some q
  process : ∀ p, l.process = some p → p = l.generation ∧ 0 < p
  closed : ∀ p, 0 < p → p < l.generation → p ∈ l.stdinClosed
  spawned : ∀ g, .spawned g ∈ l.trace → g ≤ l.generation
  writer : ∀ k p, l.writer = some ⟨.answer k, p⟩ → k ∈ l.answering ∧ 0 < p ∧
    ∃ q, l.received.get? k = some q ∧ q.generation = p
  right : Always AnswerRight l.trace

theorem answers_initial : Link.initial.Answers := by
  refine ⟨?_, ?_, List.nodup_nil, ?_, List.nodup_nil, ?_, ?_, ?_, ?_, ?_, ?_, ?_, ?_⟩
  all_goals simp [Link.initial]

/-! ## What a step leaves alone -/

structure Mute (l t : Link) : Prop where
  received : t.received = l.received
  tokens : t.serverRequests.Sublist l.serverRequests
  answering : t.answering.Sublist l.answering
  process : ∀ p, t.process = some p → l.process = some p
  generation : t.generation = l.generation
  stdinClosed : ∀ p ∈ l.stdinClosed, p ∈ t.stdinClosed
  writer : ∀ k p, t.writer = some ⟨.answer k, p⟩ → l.writer = some ⟨.answer k, p⟩ ∧
    (k ∈ l.answering → k ∈ t.answering)
  trace : ∃ events, (∀ e ∈ events, e.isRequest = true) ∧ t.trace = events ++ l.trace

section

variable {l t u : Link}

theorem Mute.mem (h : Mute l t) {e : Event} (he : e.isRequest = false) :
    e ∈ t.trace ↔ e ∈ l.trace := by
  obtain ⟨events, hevents, ht⟩ := h.trace
  rw [ht, List.mem_append]
  constructor
  · rintro (hm | hm)
    · rw [hevents e hm] at he
      cases he
    · exact hm
  · exact Or.inr

theorem Mute.hasFailed (h : Mute l t) (g : Nat) : t.hasFailed g = l.hasFailed g := by
  unfold Link.hasFailed
  rw [decide_eq_decide]
  exact h.mem rfl

theorem Answers.mute (h : l.Answers) (hm : Mute l t) : t.Answers where
  received k q hk := by
    rw [hm.received] at hk
    exact (hm.mem rfl).mpr (h.received k q hk)
  distinct := by
    rw [hm.received]
    exact h.distinct
  tokensNodup := h.tokensNodup.sublist hm.tokens
  tokens key hk := by
    obtain ⟨hd, k, q, hq, hkey, ha, hw⟩ := h.tokens key (hm.tokens.subset hk)
    rw [hm.received]
    exact ⟨fun hx => hd ((hm.mem rfl).mp hx), k, q, hq, hkey,
      fun hx => ha (hm.answering.subset hx), fun p hx => hw p ((hm.mem rfl).mp hx)⟩
  answeringNodup := h.answeringNodup.sublist hm.answering
  answering k hk := by
    obtain ⟨q, hq, hw, hd, hf⟩ := h.answering k (hm.answering.subset hk)
    rw [hm.received]
    exact ⟨q, hq, fun p hx => hw p ((hm.mem rfl).mp hx), fun hx => hd ((hm.mem rfl).mp hx),
      by rw [hm.hasFailed, hf]⟩
  discarded key hk := by
    rw [hm.received]
    exact h.discarded key ((hm.mem rfl).mp hk)
  answered k p hk := by
    rw [hm.received]
    exact h.answered k p ((hm.mem rfl).mp hk)
  process p hp := by
    rw [hm.generation]
    exact h.process p (hm.process p hp)
  closed p h0 hp := by
    rw [hm.generation] at hp
    exact hm.stdinClosed p (h.closed p h0 hp)
  spawned g hg := by
    rw [hm.generation]
    exact h.spawned g ((hm.mem rfl).mp hg)
  writer k p hw := by
    obtain ⟨hw, hk⟩ := hm.writer k p hw
    obtain ⟨ha, hrest⟩ := h.writer k p hw
    rw [hm.received]
    exact ⟨hk ha, hrest⟩
  right := by
    obtain ⟨events, hevents, ht⟩ := hm.trace
    rw [ht]
    clear ht
    induction events with
    | nil => exact h.right
    | cons e events ih =>
      refine ⟨?_, ih fun e' he => hevents e' (List.mem_cons_of_mem e he)⟩
      have he := hevents e List.mem_cons_self
      cases e with
      | answered => cases he
      | _ => trivial

theorem Mute.trans (h : Mute l t) (h' : Mute t u) : Mute l u where
  received := h'.received.trans h.received
  tokens := h'.tokens.trans h.tokens
  answering := h'.answering.trans h.answering
  process p hp := h.process p (h'.process p hp)
  generation := h'.generation.trans h.generation
  stdinClosed p hp := h'.stdinClosed p (h.stdinClosed p hp)
  writer k p hw := by
    obtain ⟨hw, hk⟩ := h'.writer k p hw
    obtain ⟨hw, hk'⟩ := h.writer k p hw
    exact ⟨hw, fun ha => hk (hk' ha)⟩
  trace := by
    obtain ⟨events, hevents, ht⟩ := h.trace
    obtain ⟨events', hevents', hu⟩ := h'.trace
    refine ⟨events' ++ events, ?_, by rw [hu, ht, List.append_assoc]⟩
    intro e he
    rcases List.mem_append.mp he with he | he
    · exact hevents' e he
    · exact hevents e he

end

section

variable {l t : Link}

theorem mute_of (hreceived : t.received = l.received)
    (htokens : t.serverRequests = l.serverRequests)
    (hanswering : t.answering = l.answering) (hprocess : t.process = l.process)
    (hgeneration : t.generation = l.generation) (hclosed : t.stdinClosed = l.stdinClosed)
    (hwriter : t.writer = l.writer)
    (htrace : ∃ events, (∀ e ∈ events, e.isRequest = true) ∧ t.trace = events ++ l.trace) :
    Mute l t where
  received := hreceived
  tokens := by rw [htokens]
  answering := by rw [hanswering]
  process p hp := by rw [← hprocess, hp]
  generation := hgeneration
  stdinClosed p hp := by rw [hclosed]; exact hp
  writer k p hw := by
    rw [hwriter] at hw
    rw [hanswering]
    exact ⟨hw, id⟩
  trace := htrace

theorem silent (l : Link) :
    ∃ events : List Event, (∀ e ∈ events, e.isRequest = true) ∧ l.trace = events ++ l.trace :=
  ⟨[], fun _ he => absurd he List.not_mem_nil, rfl⟩

theorem logs (l : Link) {e : Event} (he : e.isRequest = true) :
    ∃ events : List Event, (∀ e ∈ events, e.isRequest = true) ∧ e :: l.trace =
      events ++ l.trace := by
  refine ⟨[e], ?_, rfl⟩
  intro e' hm
  cases List.mem_singleton.mp hm
  exact he

theorem mute_refl (l : Link) : Mute l l := mute_of rfl rfl rfl rfl rfl rfl rfl (silent l)

theorem mute_setStage (l : Link) (n : Nat) (stage : Stage) : Mute l (l.setStage n stage) :=
  mute_of rfl rfl rfl rfl rfl rfl rfl (silent l)

theorem mute_endRequest (l : Link) (n : Nat) (o : Outcome) : Mute l (l.endRequest n o) :=
  mute_of rfl rfl rfl rfl rfl rfl rfl (logs l rfl)

theorem mute_unlist (l : Link) (pending : List Key) : Mute l { l with pending := pending } :=
  mute_of rfl rfl rfl rfl rfl rfl rfl (silent l)

theorem mute_retireId (l : Link) (key : Key) : Mute l (l.retireId key) :=
  mute_of rfl rfl rfl rfl rfl rfl rfl (logs l rfl)

theorem mute_readerRaises (l : Link) (g : Nat) (error : ClientError) :
    Mute l (l.readerRaises g error) :=
  mute_of rfl rfl rfl rfl rfl rfl rfl (silent l)

theorem mute_register {env : Settings} {g n : Nat} {method : String} {requireReady : Bool}
    (hr : l.register env g method requireReady = .ok (n, t)) : Mute l t := by
  obtain ⟨-, -, rfl⟩ := register_spec hr
  exact mute_of rfl rfl rfl rfl rfl rfl rfl (logs l rfl)

theorem mute_settle {i : Nat} (hs : l.settle i = some t) : Mute l t := by
  unfold Link.settle at hs
  split at hs
  · cases hs
    exact mute_of rfl rfl rfl rfl rfl rfl rfl (logs l rfl)
  · cases hs

theorem mute_failGenerationPending (l : Link) (g : Nat) (error : ClientError) :
    Mute l (l.failGenerationPending g error) := by
  unfold Link.failGenerationPending
  generalize l.pending.filter _ = keys
  induction keys generalizing l with
  | nil => exact mute_refl l
  | cons key keys ih =>
    have hkey : Mute l (l.failPendingKey key error) :=
      mute_of rfl rfl rfl rfl rfl rfl rfl (logs l (e := .retired key) rfl)
    exact hkey.trans (ih _)

theorem mute_withdraw (l : Link) (n : Nat) (q : Request) : Mute l (l.withdraw n q) := by
  unfold Link.withdraw
  simp only
  split
  · have hretired := (mute_unlist l (l.pending.erase (keyOf q.generation n))).trans
      (mute_retireId _ (keyOf q.generation n))
    have htimed : Mute _ { (Link.retireId { l with
        pending := l.pending.erase (keyOf q.generation n) } (keyOf q.generation n)) with
          trace := .timedOut q.generation n :: _ } :=
      hretired.trans (mute_of rfl rfl rfl rfl rfl rfl rfl (logs _ rfl))
    exact htimed.trans (mute_endRequest _ n _)
  · exact mute_setStage l n .overtaken

theorem mute_abandon (l : Link) (n : Nat) (q : Request) (error : ClientError) :
    Mute l (l.abandon n q error) :=
  (mute_unlist l _).trans (mute_endRequest _ n _)

theorem mute_routeResponse (l : Link) (env : Settings) (g : Nat) (id : RequestId) (body : Body) :
    Mute l (l.routeResponse env g id body) := by
  unfold Link.routeResponse
  simp only
  split
  · split
    · exact mute_of rfl rfl rfl rfl rfl rfl rfl (logs l (e := .response g id body _) rfl)
    · exact mute_of rfl rfl rfl rfl rfl rfl rfl (logs l (e := .response g id body _) rfl)
  · split
    · exact mute_of rfl rfl rfl rfl rfl rfl rfl (logs l (e := .response g id body _) rfl)
    · exact mute_of rfl rfl rfl rfl rfl rfl rfl (logs l (e := .response g id body _) rfl)

theorem mute_invoke (l : Link) (k : Nat) (q : ServerRequest) : Mute l (l.invoke k q) := by
  unfold Link.invoke
  simp only
  split
  · exact mute_of rfl rfl rfl rfl rfl rfl rfl (silent l)
  · exact mute_of rfl rfl rfl rfl rfl rfl rfl (silent l)

/-- An event that is neither a receipt nor an answer nor a discard, while no answer of its
generation is on its way. -/
theorem Answers.fail (h : l.Answers) {g : Nat} (hidle : l.isAnswering g = false) :
    Answers { l with trace := .failed g :: l.trace } := by
  have hmem : ∀ e, e ≠ Event.failed g → (e ∈ Event.failed g :: l.trace ↔ e ∈ l.trace) := by
    intro e he
    rw [List.mem_cons]
    exact or_iff_right he
  refine ⟨?_, h.distinct, h.tokensNodup, ?_, h.answeringNodup, ?_, ?_, ?_, h.process, h.closed, ?_,
    h.writer, ⟨trivial, h.right⟩⟩
  · intro k q hk
    exact List.mem_cons_of_mem _ (h.received k q hk)
  · intro key hk
    obtain ⟨hd, k, q, hq, hkey, ha, hw⟩ := h.tokens key hk
    exact ⟨fun hx => hd ((hmem _ (by simp)).mp hx), k, q, hq, hkey, ha,
      fun p hx => hw p ((hmem _ (by simp)).mp hx)⟩
  · intro k hk
    obtain ⟨q, hq, hw, hd, hf⟩ := h.answering k hk
    refine ⟨q, hq, fun p hx => hw p ((hmem _ (by simp)).mp hx),
      fun hx => hd ((hmem _ (by simp)).mp hx), ?_⟩
    have hne : q.generation ≠ g := by
      intro he
      have hnone := List.any_eq_false.mp hidle k hk
      have hq : l.received.get? k = some q := hq
      rw [hq, Option.any_some, decide_eq_true_eq] at hnone
      exact hnone he
    unfold hasFailed at hf ⊢
    rw [decide_eq_false_iff_not] at hf ⊢
    rw [hmem _ (by simpa using hne)]
    exact hf
  · intro key hk
    exact h.discarded key ((hmem _ (by simp)).mp hk)
  · intro k p hk
    exact h.answered k p ((hmem _ (by simp)).mp hk)
  · intro g' hg
    exact h.spawned g' ((hmem _ (by simp)).mp hg)

theorem Answers.markGenerationFailed (h : l.Answers) {g : Nat} (error : ClientError)
    (hidle : g = l.generation → l.isAnswering g = false) :
    (l.markGenerationFailed g error).Answers := by
  unfold Link.markGenerationFailed
  by_cases hg : g ≠ l.generation
  · rw [if_pos hg]
    exact h
  · rw [if_neg hg]
    have hfailed := h.fail (hidle (not_not.mp hg))
    exact hfailed.mute (mute_of rfl rfl rfl rfl rfl rfl rfl (silent _))

theorem mute_discardGeneration (l : Link) (g : Nat) : Mute l (l.discardGeneration g) where
  received := rfl
  tokens := List.filter_sublist
  answering := List.Sublist.refl _
  process _ hp := hp
  generation := rfl
  stdinClosed _ hp := hp
  writer _ _ hw := ⟨hw, id⟩
  trace := silent l

theorem Answers.abortGeneration (h : l.Answers) {g : Nat} {closed : Bool}
    (hidle : (l.abortGeneration g closed).1 = true → l.isAnswering g = false) :
    (l.abortGeneration g closed).2.Answers := by
  unfold Link.abortGeneration at hidle ⊢
  split
  · exact h
  rename_i hguard
  rw [if_neg hguard] at hidle
  have hfailed := (h.mute (mute_discardGeneration l g)).fail (hidle rfl)
  exact hfailed.mute (mute_of rfl rfl rfl rfl rfl rfl rfl (silent _))

variable {q : ServerRequest}

theorem Answers.takeToken (h : l.Answers) {k : Nat}
    (hq : l.received.get? k = some q) (hf : l.hasFailed q.generation = false) :
    (l.takeToken k q).Answers := by
  unfold Link.takeToken
  split
  · exact h
  rename_i hguard
  have htoken : q.key ∈ l.serverRequests := not_not.mp (not_or.mp hguard).2
  obtain ⟨hd, k', q', hq', hkey, ha, hw⟩ := h.tokens q.key htoken
  have hk : k' = k := h.distinct k' k q' q hq' hq hkey
  subst hk
  refine ⟨h.received, h.distinct, h.tokensNodup.erase _, ?_,
    List.nodup_cons.mpr ⟨ha, h.answeringNodup⟩, ?_, h.discarded, h.answered, h.process, h.closed,
    h.spawned, ?_, h.right⟩
  · intro key hm
    obtain ⟨hne, hm⟩ := h.tokensNodup.mem_erase_iff.mp hm
    obtain ⟨hd', m, p, hp, hpkey, hpa, hpw⟩ := h.tokens key hm
    refine ⟨hd', m, p, hp, hpkey, ?_, hpw⟩
    intro hx
    rcases List.mem_cons.mp hx with he | hx
    · subst he
      have hp : l.received.get? m = some p := hp
      rw [hq] at hp
      cases hp
      exact hne hpkey.symm
    · exact hpa hx
  · intro m hm
    rcases List.mem_cons.mp hm with he | hm
    · subst he
      exact ⟨q, hq, hw, hd, hf⟩
    · exact h.answering m hm
  · intro m p hw'
    obtain ⟨hm, hrest⟩ := h.writer m p hw'
    exact ⟨List.mem_cons_of_mem _ hm, hrest⟩

theorem Answers.discardServerRequest (h : l.Answers) (g : Nat) (id : RequestId) (closed : Bool) :
    (l.discardServerRequest g id closed).Answers := by
  unfold Link.discardServerRequest
  simp only
  split
  · exact h
  rename_i hguard
  have htoken : (g, id) ∈ l.serverRequests := by
    have h2 := (not_or.mp (not_or.mp hguard).2).2
    exact not_not.mp h2
  obtain ⟨hd, k, q, hq, hkey, ha, hw⟩ := h.tokens (g, id) htoken
  have hmem : ∀ e, e ≠ Event.discarded (g, id) →
      (e ∈ Event.discarded (g, id) :: l.trace ↔ e ∈ l.trace) := by
    intro e he
    rw [List.mem_cons]
    exact or_iff_right he
  refine ⟨?_, h.distinct, h.tokensNodup.erase _, ?_, h.answeringNodup, ?_, ?_, ?_, h.process,
    h.closed, ?_, h.writer, ⟨trivial, h.right⟩⟩
  · intro m p hm
    exact List.mem_cons_of_mem _ (h.received m p hm)
  · intro key hm
    obtain ⟨hne, hm⟩ := h.tokensNodup.mem_erase_iff.mp hm
    obtain ⟨hd', m, p, hp, hpkey, hpa, hpw⟩ := h.tokens key hm
    exact ⟨fun hx => hd' ((hmem _ (by simpa using hne)).mp hx), m, p, hp, hpkey, hpa,
      fun r hx => hpw r ((hmem _ (by simp)).mp hx)⟩
  · intro m hm
    obtain ⟨p, hp, hpw, hpd, hpf⟩ := h.answering m hm
    have hne : p.key ≠ (g, id) := by
      intro he
      have hkm : k = m := h.distinct k m q p hq hp (hkey.trans he.symm)
      exact ha (hkm ▸ hm)
    refine ⟨p, hp, fun r hx => hpw r ((hmem _ (by simp)).mp hx),
      fun hx => hpd ((hmem _ (by simpa using hne)).mp hx), ?_⟩
    unfold hasFailed at hpf ⊢
    rw [decide_eq_false_iff_not] at hpf ⊢
    exact fun hx => hpf ((hmem _ (by simp)).mp hx)
  · intro key hm
    rcases List.mem_cons.mp hm with he | hm
    · cases he
      exact ⟨k, q, hq, hkey⟩
    · exact h.discarded key hm
  · intro m p hm
    exact h.answered m p ((hmem _ (by simp)).mp hm)
  · intro g' hg
    exact h.spawned g' ((hmem _ (by simp)).mp hg)

theorem isNewKey_spec {key : Key} (h : l.isNewKey key = true) {k : Nat}
    (hq : l.received.get? k = some q) : q.key ≠ key := by
  have hall := List.all_eq_true.mp h q (Dict.mem_values_of_get? hq)
  exact of_decide_eq_true hall

theorem Answers.receive (h : l.Answers) {k : Nat}
    (hnew : l.isNewKey q.key = true) (hfresh : l.received.get? k = none) :
    Answers { l with received := l.received.set k q, trace := .received k q :: l.trace } := by
  have hne : ∀ m p, l.received.get? m = some p → m ≠ k := by
    intro m p hm he
    rw [he, hfresh] at hm
    cases hm
  have hkept : ∀ m p, l.received.get? m = some p → (l.received.set k q).get? m = some p := by
    intro m p hm
    rw [Dict.get?_set_of_ne _ _ (hne m p hm), hm]
  have hcases : ∀ m p, (l.received.set k q).get? m = some p →
      (m = k ∧ p = q) ∨ l.received.get? m = some p := by
    intro m p hm
    rw [Dict.get?_set] at hm
    split at hm
    · rename_i he
      cases hm
      exact .inl ⟨he, rfl⟩
    · exact .inr hm
  have hmem : ∀ e, e ≠ Event.received k q → (e ∈ Event.received k q :: l.trace ↔ e ∈ l.trace) := by
    intro e he
    rw [List.mem_cons]
    exact or_iff_right he
  refine ⟨?_, ?_, h.tokensNodup, ?_, h.answeringNodup, ?_, ?_, ?_, h.process, h.closed, ?_, ?_,
    ⟨trivial, h.right⟩⟩
  · intro m p hm
    rcases hcases m p hm with ⟨rfl, rfl⟩ | hm
    · exact List.mem_cons_self
    · exact List.mem_cons_of_mem _ (h.received m p hm)
  · intro m m' p p' hm hm' hkey
    rcases hcases m p hm with ⟨he, hp⟩ | hold
    · rcases hcases m' p' hm' with ⟨he', -⟩ | hold'
      · rw [he, he']
      · exact absurd (hp ▸ hkey.symm) (isNewKey_spec hnew hold')
    · rcases hcases m' p' hm' with ⟨-, hp'⟩ | hold'
      · exact absurd (hp' ▸ hkey) (isNewKey_spec hnew hold)
      · exact h.distinct m m' p p' hold hold' hkey
  · intro key hm
    obtain ⟨hd, m, p, hp, hkey, ha, hw⟩ := h.tokens key hm
    exact ⟨fun hx => hd ((hmem _ (by simp)).mp hx), m, p, hkept m p hp, hkey, ha,
      fun r hx => hw r ((hmem _ (by simp)).mp hx)⟩
  · intro m hm
    obtain ⟨p, hp, hw, hd, hf⟩ := h.answering m hm
    refine ⟨p, hkept m p hp, fun r hx => hw r ((hmem _ (by simp)).mp hx),
      fun hx => hd ((hmem _ (by simp)).mp hx), ?_⟩
    unfold hasFailed at hf ⊢
    rw [decide_eq_false_iff_not] at hf ⊢
    exact fun hx => hf ((hmem _ (by simp)).mp hx)
  · intro key hm
    obtain ⟨m, p, hp, hkey⟩ := h.discarded key ((hmem _ (by simp)).mp hm)
    exact ⟨m, p, hkept m p hp, hkey⟩
  · intro m r hm
    obtain ⟨p, hp⟩ := h.answered m r ((hmem _ (by simp)).mp hm)
    exact ⟨p, hkept m p hp⟩
  · intro g hg
    exact h.spawned g ((hmem _ (by simp)).mp hg)
  · intro m r hw
    obtain ⟨hm, h0, p, hp, hg⟩ := h.writer m r hw
    exact ⟨hm, h0, p, hkept m p hp, hg⟩

/-- A request that is known, but has neither token nor answer. -/
def Idle (l : Link) (k : Nat) (q : ServerRequest) : Prop :=
  l.received.get? k = some q ∧ .discarded q.key ∉ l.trace ∧ k ∉ l.answering ∧
    ∀ p, .answered k p ∉ l.trace

theorem Answers.addToken (h : l.Answers) {k : Nat} (hi : l.Idle k q)
    (hnew : q.key ∉ l.serverRequests) :
    Answers { l with serverRequests := q.key :: l.serverRequests } := by
  obtain ⟨hq, hd, ha, hw⟩ := hi
  refine ⟨h.received, h.distinct, List.nodup_cons.mpr ⟨hnew, h.tokensNodup⟩, ?_, h.answeringNodup,
    h.answering, h.discarded, h.answered, h.process, h.closed, h.spawned, h.writer, h.right⟩
  intro key hm
  rcases List.mem_cons.mp hm with he | hm
  · rw [he]
    exact ⟨hd, k, q, hq, rfl, ha, hw⟩
  · exact h.tokens key hm

theorem Answers.addAnswer (h : l.Answers) {k : Nat} (hi : l.Idle k q)
    (hnew : q.key ∉ l.serverRequests) (hf : l.hasFailed q.generation = false) :
    Answers { l with answering := k :: l.answering } := by
  obtain ⟨hq, hd, ha, hw⟩ := hi
  refine ⟨h.received, h.distinct, h.tokensNodup, ?_, List.nodup_cons.mpr ⟨ha, h.answeringNodup⟩, ?_,
    h.discarded, h.answered, h.process, h.closed, h.spawned, ?_, h.right⟩
  · intro key hm
    obtain ⟨hd', m, p, hp, hkey, hpa, hpw⟩ := h.tokens key hm
    refine ⟨hd', m, p, hp, hkey, ?_, hpw⟩
    intro hx
    rcases List.mem_cons.mp hx with he | hx
    · subst he
      have hp : l.received.get? m = some p := hp
      rw [hq] at hp
      cases hp
      exact hnew (hkey ▸ hm)
    · exact hpa hx
  · intro m hm
    rcases List.mem_cons.mp hm with he | hm
    · subst he
      exact ⟨q, hq, hw, hd, hf⟩
    · exact h.answering m hm
  · intro m p hw'
    obtain ⟨hm, hrest⟩ := h.writer m p hw'
    exact ⟨List.mem_cons_of_mem _ hm, hrest⟩

theorem Answers.routeServerRequest (h : l.Answers) {env : Settings} {k : Nat}
    (handled : Bool) (hnew : l.isNewKey q.key = true) (hfresh : l.received.get? k = none)
    (hf : env.maxPendingRequests ≤ l.serverRequests.length → l.hasFailed q.generation = false) :
    (l.routeServerRequest env k q handled).Answers := by
  have hunheld : q.key ∉ l.serverRequests := by
    intro hm
    obtain ⟨-, m, p, hp, hkey, -⟩ := h.tokens q.key hm
    exact isNewKey_spec hnew hp hkey
  have hreceived := h.receive hnew hfresh
  have hidle : Idle { l with received := l.received.set k q, trace := .received k q :: l.trace }
      k q := by
    refine ⟨Dict.get?_set_self _ _ _, ?_, ?_, ?_⟩
    · intro hm
      obtain ⟨m, p, hp, hkey⟩ := h.discarded q.key ((List.mem_cons.mp hm).resolve_left (by simp))
      exact isNewKey_spec hnew hp hkey
    · intro hm
      obtain ⟨p, hp, -⟩ := h.answering k hm
      rw [hfresh] at hp
      cases hp
    · intro r hm
      obtain ⟨p, hp⟩ := h.answered k r ((List.mem_cons.mp hm).resolve_left (by simp))
      rw [hfresh] at hp
      cases hp
  unfold Link.routeServerRequest
  rw [if_neg hunheld]
  simp only
  split
  · rename_i hfull
    refine hreceived.addAnswer hidle hunheld ?_
    have hfailed := hf hfull
    unfold hasFailed at hfailed ⊢
    rw [decide_eq_false_iff_not] at hfailed ⊢
    exact fun hm => hfailed ((List.mem_cons.mp hm).resolve_left (by simp))
  · have htoken := hreceived.addToken hidle hunheld
    split
    · exact htoken.mute (mute_of rfl rfl rfl rfl rfl rfl rfl (silent _))
    · exact htoken.mute (mute_of rfl rfl rfl rfl rfl rfl rfl (silent _))

theorem mute_dropAnswer (l : Link) (k : Nat) (hw : ∀ p, l.writer ≠ some ⟨.answer k, p⟩) :
    Mute l { l with answering := l.answering.erase k } where
  received := rfl
  tokens := List.Sublist.refl _
  answering := List.erase_sublist
  process _ hp := hp
  generation := rfl
  stdinClosed _ hp := hp
  writer m p hm := by
    refine ⟨hm, fun ha => ?_⟩
    have hne : m ≠ k := by
      rintro rfl
      exact hw p hm
    exact (List.mem_erase_of_ne hne).mpr ha
  trace := silent l

theorem mute_release (l : Link) : Mute l { l with writer := none } where
  received := rfl
  tokens := List.Sublist.refl _
  answering := List.Sublist.refl _
  process _ hp := hp
  generation := rfl
  stdinClosed _ hp := hp
  writer _ _ hw := by cases hw
  trace := silent l

theorem mute_writeFails (l : Link) (hw : l.writer = none) (payload : Payload)
    (error : ClientError) : Mute l (l.writeFails payload error) := by
  cases payload with
  | request n => exact mute_setStage l n _
  | answer k =>
    refine mute_dropAnswer l k ?_
    intro p hp
    rw [hw] at hp
    cases hp
  | notice => exact mute_refl l

theorem openStream_spec {g p : Nat} (h : l.openStream g = some p) :
    g = l.generation ∧ l.process = some p := by
  unfold Link.openStream at h
  split at h
  · cases h
  rename_i hg
  cases hp : l.process with
  | none =>
    rw [hp] at h
    cases h
  | some p' =>
    rw [hp] at h
    simp only at h
    split at h
    · cases h
    · cases h
      exact ⟨not_not.mp hg, rfl⟩

theorem Answers.wrote (h : l.Answers) {w : Writing} (hw : l.writer = some w)
    (hopen : w.stream ∉ l.stdinClosed) : (l.wrote w).Answers := by
  have hreleased := h.mute (mute_release l)
  obtain ⟨payload, p⟩ := w
  cases payload with
  | request n => exact hreleased.mute (mute_setStage _ n .waiting)
  | notice => exact hreleased
  | answer k =>
    obtain ⟨hk, h0, q, hq, hg⟩ := h.writer k p hw
    obtain ⟨q', hq', hnew, hd, hf⟩ := h.answering k hk
    rw [hq] at hq'
    cases hq'
    have hlast : l.generation ≤ p := by
      by_contra hlt
      exact hopen (h.closed p h0 (by omega))
    have hdropped := hreleased.mute (mute_dropAnswer { l with writer := none } k fun _ hw => by
      cases hw)
    have hmem : ∀ e, e ≠ Event.answered k p →
        (e ∈ Event.answered k p :: l.trace ↔ e ∈ l.trace) := by
      intro e he
      rw [List.mem_cons]
      exact or_iff_right he
    refine ⟨?_, h.distinct, h.tokensNodup, ?_, hdropped.answeringNodup, ?_, ?_, ?_, h.process,
      h.closed, ?_, hdropped.writer, ⟨⟨hnew, ?_⟩, h.right⟩⟩
    · intro m r hm
      exact List.mem_cons_of_mem _ (h.received m r hm)
    · intro key hm
      obtain ⟨hd', m, r, hr, hkey, ha, hwr⟩ := h.tokens key hm
      have hne : m ≠ k := fun he => ha (he ▸ hk)
      exact ⟨fun hx => hd' ((hmem _ (by simp)).mp hx), m, r, hr, hkey,
        fun hx => ha (List.mem_of_mem_erase hx),
        fun s hx => hwr s ((hmem _ (by simp [hne])).mp hx)⟩
    · intro m hm
      obtain ⟨hne, hm⟩ := h.answeringNodup.mem_erase_iff.mp hm
      obtain ⟨r, hr, hwr, hdr, hfr⟩ := h.answering m hm
      refine ⟨r, hr, fun s hx => hwr s ((hmem _ (by simp [hne])).mp hx),
        fun hx => hdr ((hmem _ (by simp)).mp hx), ?_⟩
      unfold hasFailed at hfr ⊢
      rw [decide_eq_false_iff_not] at hfr ⊢
      exact fun hx => hfr ((hmem _ (by simp)).mp hx)
    · intro key hm
      exact h.discarded key ((hmem _ (by simp)).mp hm)
    · intro m r hm
      rcases List.mem_cons.mp hm with he | hm
      · cases he
        exact ⟨q, hq⟩
      · exact h.answered m r hm
    · intro g hg'
      exact h.spawned g ((hmem _ (by simp)).mp hg')
    · obtain ⟨mid, earlier, hsplit⟩ := List.append_of_mem (h.received k q hq)
      refine ⟨q, mid, earlier, hsplit, hg.symm, ?_, of_decide_eq_false hf, ?_⟩
      · intro hx
        exact hd (hsplit ▸ List.mem_append_left _ hx)
      · intro g hx
        have hle := h.spawned g hx
        omega

theorem mark_dropAnswer (l : Link) (k g : Nat) (error : ClientError) :
    Link.markGenerationFailed { l with answering := l.answering.erase k } g error =
      { l.markGenerationFailed g error with
        answering := (l.markGenerationFailed g error).answering.erase k } := by
  unfold Link.markGenerationFailed
  by_cases hg : g ≠ l.generation
  · rw [if_pos hg, if_pos hg]
  · rw [if_neg hg, if_neg hg]

def isAnsweringBeside (l : Link) (payload : Payload) (g : Nat) : Bool :=
  match payload with
  | .answer k => { l with answering := l.answering.erase k }.isAnswering g
  | _ => l.isAnswering g

theorem Answers.writeBroke (h : l.Answers) {w : Writing} {g : Nat} (error : ClientError)
    (hidle : l.isAnsweringBeside w.payload g = false) : (l.writeBroke w g error).Answers := by
  have hreleased := h.mute (mute_release l)
  obtain ⟨payload, p⟩ := w
  cases payload with
  | request n =>
    exact (hreleased.markGenerationFailed error fun _ => hidle).mute (mute_setStage _ n _)
  | notice => exact hreleased.markGenerationFailed error fun _ => hidle
  | answer k =>
    have hdropped := hreleased.mute (mute_dropAnswer { l with writer := none } k fun _ hw => by
      cases hw)
    have hmarked := hdropped.markGenerationFailed error fun _ => hidle
    rw [mark_dropAnswer] at hmarked
    exact hmarked

theorem Answers.startWrite (h : l.Answers) {payload : Payload} {g : Nat} (hw : l.writer = none)
    (hanswer : ∀ k, payload = .answer k →
      k ∈ l.answering ∧ ∃ q, l.received.get? k = some q ∧ q.generation = g) :
    (l.startWrite payload g).Answers := by
  unfold Link.startWrite
  split
  · exact h.mute (mute_writeFails l hw payload _)
  rename_i p hp
  obtain ⟨hg, hprocess⟩ := openStream_spec hp
  obtain ⟨hpg, h0⟩ := h.process p hprocess
  have hstarted : Answers { l with writer := some ⟨payload, p⟩ } := by
    refine ⟨h.received, h.distinct, h.tokensNodup, h.tokens, h.answeringNodup, h.answering,
      h.discarded, h.answered, h.process, h.closed, h.spawned, ?_, h.right⟩
    intro k r hr
    cases hr
    obtain ⟨hk, q, hq, hqg⟩ := hanswer k rfl
    exact ⟨hk, h0, q, hq, by omega⟩
  cases payload with
  | request n => exact hstarted.mute (mute_setStage _ n .writing)
  | answer k => exact hstarted
  | notice => exact hstarted

/-- The next generation starts after the pipe of the last was closed. -/
theorem Answers.spawn (h : l.Answers) (hclosed : l.generation = 0 ∨ l.generation ∈ l.stdinClosed) :
    l.spawn.Answers := by
  have hmem : ∀ e, e ≠ Event.spawned (l.generation + 1) →
      (e ∈ Event.spawned (l.generation + 1) :: l.trace ↔ e ∈ l.trace) := by
    intro e he
    rw [List.mem_cons]
    exact or_iff_right he
  refine ⟨?_, h.distinct, h.tokensNodup, ?_, h.answeringNodup, ?_, ?_, ?_, ?_, ?_, ?_, h.writer,
    ⟨trivial, h.right⟩⟩
  · intro m r hm
    exact List.mem_cons_of_mem _ (h.received m r hm)
  · intro key hm
    obtain ⟨hd, m, r, hr, hkey, ha, hw⟩ := h.tokens key hm
    exact ⟨fun hx => hd ((hmem _ (by simp)).mp hx), m, r, hr, hkey, ha,
      fun s hx => hw s ((hmem _ (by simp)).mp hx)⟩
  · intro m hm
    obtain ⟨r, hr, hw, hd, hf⟩ := h.answering m hm
    refine ⟨r, hr, fun s hx => hw s ((hmem _ (by simp)).mp hx),
      fun hx => hd ((hmem _ (by simp)).mp hx), ?_⟩
    unfold hasFailed at hf ⊢
    rw [decide_eq_false_iff_not] at hf ⊢
    exact fun hx => hf ((hmem _ (by simp)).mp hx)
  · intro key hm
    exact h.discarded key ((hmem _ (by simp)).mp hm)
  · intro m r hm
    exact h.answered m r ((hmem _ (by simp)).mp hm)
  · intro p hp
    cases hp
    exact ⟨rfl, Nat.succ_pos _⟩
  · intro p h0 hp
    have hp : p < l.generation + 1 := hp
    by_cases he : p = l.generation
    · rcases hclosed with hz | hc
      · omega
      · exact he ▸ hc
    · exact h.closed p h0 (by omega)
  · intro g hg
    change g ≤ l.generation + 1
    rcases List.mem_cons.mp hg with he | hg
    · cases he
      exact Nat.le_refl _
    · have hle := h.spawned g hg
      omega

end

end Link

end CodexBridge.AppServer
