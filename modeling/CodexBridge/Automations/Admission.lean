import CodexBridge.Automations.Timing

/-! # Each occurrence is admitted once

One admissible step keeps the history sound, so a run of such steps does. A claim
made before its due time shows what the condition is for: a single run in the
future has no next occurrence after the claim, and the next snapshot computes the
same one again.
-/

namespace CodexBridge.Automations

open Effect

/-! ## One step -/

structure World.Sound (w : World) : Prop where
  admitted : AdmittedOnce w.history
  timed : Timed w.history w.store.state.automations
  saved : w.store.IsSaved

theorem World.Sound.evolves {w : World} (h : w.Sound) {s : Store} (clock : Int)
    (hs : InBoth (Evolves w.history w.store.state.automations) s) :
    World.Sound ⟨s, clock, w.history ++ []⟩ := by
  rw [List.append_nil]
  exact ⟨h.admitted, h.timed.evolves hs.1, hs.2⟩

/-- Offers of stored occurrences lie after everything recorded. -/
theorem World.Sound.offer {w : World} (h : w.Sound) {s : Store} (clock : Int)
    {offers : List Offer} (hs : InBoth (Evolves w.history w.store.state.automations) s)
    (hstored : ∀ o ∈ offers, IsStored s.state.automations o) :
    World.Sound ⟨s, clock, w.history ++
      offers.map fun o => .offered o.automationId o.revision o.nextRunAt⟩ := by
  have htimed := h.timed.evolves hs.1
  refine ⟨?_, htimed.offer hstored, hs.2⟩
  refine List.pairwise_append.mpr ⟨h.admitted, ?_, ?_⟩
  · refine List.pairwise_map.mpr (List.pairwise_of_forall fun a b => ?_)
    rfl
  intro e he later hlater
  obtain ⟨o, ho, rfl⟩ := List.mem_map.mp hlater
  cases e with
  | offered k revision n => rfl
  | recorded k revision d status =>
    obtain ⟨a, ha, -, hnext⟩ := hstored o ho
    simp only [Event.admits, Bool.or_eq_true, decide_eq_true_eq]
    by_cases hk : k = o.automationId
    · subst hk
      exact Or.inr (htimed.later _ a _ ha hnext d ⟨revision, status, he⟩)
    · exact Or.inl (by simpa using hk)

theorem World.Sound.fire {env : Environment} {w : World} (h : w.Sound) {automationId : String}
    {revision : Nat} {due now : Int} {key uuid : String} {s : Store} {run : Run} (clock : Int)
    (hs : Claimed env w.store automationId revision (instantOf due) now key uuid s)
    (hrun : run.automationId = automationId) (hdue : run.dueAt = due)
    (hoffered : .offered automationId revision due ∈ w.history)
    (hfirst : ∀ status, .recorded automationId revision due status ∉ w.history)
    (hadvances : ∀ record, w.store.state.automations.get? automationId = some record →
      record.revision = revision → AdvancesAt env record.schedule (max (instantOf due) now)) :
    World.Sound ⟨s, clock,
      w.history ++ [.recorded run.automationId revision run.dueAt run.status]⟩ := by
  obtain ⟨record, next, hrecord, hrevision, hnext, hafter⟩ := hs.claimed
  have hrevision : record.revision = revision := by omega
  have hgt : ∀ n, next = some n → max (instantOf due) now < instantOf n := by
    intro n hn
    rw [hn] at hnext
    exact nextRunAfter_gt (hadvances record hrecord hrevision) hnext
  subst hrevision
  obtain ⟨htimed, hpast⟩ := h.timed.record run.status hrecord hoffered hfirst hgt hafter
  rw [hrun, hdue]
  refine ⟨?_, htimed, hs.saved⟩
  refine List.pairwise_append.mpr ⟨h.admitted, List.pairwise_singleton _ _, ?_⟩
  intro e he later hlater
  simp only [List.mem_singleton] at hlater
  subst hlater
  cases e with
  | offered k r n => rfl
  | recorded k r d status =>
    by_cases hk : k = automationId
    · subst hk
      have hlt := hpast d ⟨r, status, he⟩
      have hne : d ≠ due := by omega
      simp [Event.admits, hne]
    · simp [Event.admits, hk]

def World.outline (w : World) : List (Schedule × Option Int) × List Event :=
  (w.store.state.automations.values.map fun a => (a.schedule, a.nextRunAt), w.history)

end CodexBridge.Automations
