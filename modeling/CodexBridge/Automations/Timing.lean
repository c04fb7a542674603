import CodexBridge.Automations.Occurrences

/-! # What each call does to the timing

Every call but a scheduled claim lets the automations evolve: each one afterwards
is new or a moved one. A scheduled claim stores one run and retimes one
automation. Writes go through here, so after a call the file agrees again.
-/

namespace CodexBridge.Automations

open Effect

/-! ## Calls that leave the timing alone

Between an edit and the write that follows it only the memory holds the edit, so
each call is followed through two assertions: one on the memory, one on both.
-/

def Store.IsSaved (s : Store) : Prop :=
  (s.saved.getD State.empty).automations = s.state.automations

section

variable (R : Dict String Automation → Prop)

def InMemory (s : Store) : Prop := R s.state.automations

def InBoth (s : Store) : Prop := R s.state.automations ∧ s.IsSaved

end

variable {R : Dict String Automation → Prop} {E : AutomationError → Store → Prop}

theorem save_state {P : State → Prop} (env : Environment)
    (hP : ∀ s, P s → P (pruneCreateRequests env s).1) :
    Triple (fun s => P s.state) (save env true) (fun _ s => P s.state ∧ s.saved = some s.state)
      E := by
  apply Triple.bind (Q := fun _ s => P s.state)
  · apply Triple.modify
    intro s hs
    exact hP s.state hs
  intro _
  apply Triple.bind (Q := fun _ s => P s.state)
  · exact Triple.require (fun s hs _ => hs) fun s _ hf => by cases hf
  intro _
  apply Triple.modify
  intro s hs
  exact ⟨hs, rfl⟩

theorem Store.isSaved_of_saved {s : Store} (h : s.saved = some s.state) : s.IsSaved := by
  unfold Store.IsSaved
  rw [h]
  rfl

theorem save_spec (env : Environment) :
    Triple (InMemory R) (save env true) (fun _ => InBoth R) E := by
  have hP : ∀ s : State, R s.automations → R (pruneCreateRequests env s).1.automations := by
    intro s hs
    rw [pruneCreateRequests_automations]
    exact hs
  refine (save_state env hP).returns ?_
  intro _ s hs
  exact ⟨hs.1, Store.isSaved_of_saved hs.2⟩

variable {k : String}

variable {history : List Event} {before : Dict String Automation}

theorem InBoth.mono {R' : Dict String Automation → Prop} {s : Store} (h : InBoth R s)
    (hR : ∀ automations, R automations → R' automations) : InBoth R' s :=
  ⟨hR _ h.1, h.2⟩

theorem Evolves.refl : Evolves history before before := by
  intro k a hg
  exact Or.inr ⟨a, hg, rfl, .same rfl rfl⟩

theorem Moved.congr {a b c : Automation} (h : Moved history k a b)
    (ht : timing c = timing b) : Moved history k a c := by
  simp only [timing, Prod.mk.injEq] at ht
  obtain ⟨-, hrev, hnext⟩ := ht
  cases h with
  | same r n => exact .same (by rw [hrev, r]) (by rw [hnext, n])
  | revised r n => exact .revised (by rw [hrev]; exact r) (by rw [hnext]; exact n)
  | filled r e n => exact .filled (by rw [hrev, r]) e (by rw [hnext]; exact n)

theorem Evolves.set {b : Automation} (h : (b.automationId = k ∧ ∀ e ∈ history, e.automationId ≠ k) ∨
      ∃ a, before.get? k = some a ∧ b.automationId = a.automationId ∧ Moved history k a b) :
    Evolves history before (before.set k b) := by
  intro k' c hg
  rw [Dict.get?_set] at hg
  split at hg
  · rename_i hk
    cases hg
    rw [hk]
    exact h
  · exact Or.inr ⟨c, hg, rfl, .same rfl rfl⟩

variable {env : Environment}

def Filled (env : Environment) (now : Int) (a b : Automation) : Prop :=
  b = a ∨ (a.enabled = true ∧ a.nextRunAt = none ∧ b.automationId = a.automationId ∧
    b.revision = a.revision ∧ b.nextRunAt ≠ none ∧
    nextRun env a.schedule now = .ok b.nextRunAt)

def IsStored (automations : Dict String Automation) (o : Offer) : Prop :=
  ∃ a, automations.get? o.automationId = some a ∧ a.revision = o.revision ∧
    a.nextRunAt = some o.nextRunAt

/-- The loop of the snapshot: each record is as before or filled in, the offers so far
are stored, and nothing was rewritten unless marked. -/
structure Scanned (env : Environment) (now : Int) (before : Dict String Automation)
    (offers : List Offer) (rewritten : Bool) (s : Store) : Prop where
  filled : ∀ k b, s.state.automations.get? k = some b →
    ∃ a, before.get? k = some a ∧ Filled env now a b
  stored : ∀ o ∈ offers, IsStored s.state.automations o
  same : rewritten = false → InBoth (· = before) s

def SnapshotReady (env : Environment) (history : List Event) (now : Int)
    (before : Dict String Automation) : Prop :=
  ∀ k a, before.get? k = some a → a.enabled = true → a.nextRunAt = none →
    Recomputable env history k a.schedule now

theorem Scanned.fill {now n : Int} {offers : List Offer}
    {rewritten : Bool} {s : Store} {a : Automation}
    (hids : ∀ k a, before.get? k = some a → a.automationId = k)
    (h : Scanned env now before offers rewritten s)
    (hg : s.state.automations.get? k = some a) (ha : before.get? k = some a)
    (henabled : a.enabled = true) (hempty : a.nextRunAt = none)
    (hnext : nextRun env a.schedule now = .ok (some n)) :
    Scanned env now before (offers ++ [⟨a.automationId, a.revision, n⟩]) true
      { s with state := { s.state with automations := s.state.automations.update k fun r =>
          { r with nextRunAt := some n, updatedAt := iso now } } } := by
  have hk := hids k a ha
  constructor
  · intro k' b hb
    simp only [Dict.get?_update] at hb
    split at hb
    · rename_i hkk
      subst hkk
      rw [hg] at hb
      cases hb
      exact ⟨a, ha, Or.inr ⟨henabled, hempty, rfl, rfl, by simp, hnext⟩⟩
    · exact h.filled k' b hb
  · intro o ho
    rcases List.mem_append.mp ho with hold | hnew
    · obtain ⟨b, hb, hrev, hn⟩ := h.stored o hold
      -- an offered record is not the one filled in: that one had no occurrence
      have hne : o.automationId ≠ k := by
        intro he
        rw [he, hg] at hb
        cases hb
        rw [hempty] at hn
        cases hn
      refine ⟨b, ?_, hrev, hn⟩
      simp only [Dict.get?_update, if_neg hne]
      exact hb
    · simp only [List.mem_singleton] at hnew
      subst hnew
      refine ⟨{ a with nextRunAt := some n, updatedAt := iso now }, ?_, rfl, rfl⟩
      simp only [Dict.get?_update, hk, if_true, hg, Option.map_some]
  · intro hf
    cases hf

theorem Scanned.evolves {now : Int} {offers : List Offer}
    {rewritten : Bool} {s : Store} (hready : SnapshotReady env history now before)
    (h : Scanned env now before offers rewritten s) :
    Evolves history before s.state.automations := by
  intro k b hg
  obtain ⟨a, ha, hfilled⟩ := h.filled k b hg
  refine Or.inr ⟨a, ha, ?_⟩
  rcases hfilled with rfl | ⟨henabled, hempty, hid, hrev, -, hnext⟩
  · exact ⟨rfl, .same rfl rfl⟩
  · exact ⟨hid, .filled hrev hempty ((hready k a ha henabled hempty).liesAfter hnext)⟩

structure Claimed (env : Environment) (found : Store) (automationId : String)
    (revision : Int) (dueAt now : Int) (key uuid : String) (s : Store) : Prop where
  saved : s.IsSaved
  unindexed : found.state.idempotency.get? key = none
  claimed : ∃ record next, found.state.automations.get? automationId = some record ∧
    revision = record.revision ∧
    nextRunAfter env record.schedule (max dueAt now) = .ok next ∧
    Retimed found.state.automations automationId next s.state.automations
  run : ∃ run, s.state.runs.get? ("autrun_" ++ uuid) = some run ∧
    run.automationId = automationId ∧ run.dueAt = iso dueAt

theorem beyondLimit_not_mem {limit : Nat} {protectedIds : List String} {runs : List Run}
    (hk : k ∈ protectedIds) : k ∉ beyondLimit limit protectedIds runs := by
  intro hm
  unfold beyondLimit at hm
  obtain ⟨r, hr, rfl⟩ := List.mem_map.mp hm
  have hsorted := List.mem_of_mem_drop hr
  have hcandidate := (List.mem_insertionSort _).mp hsorted
  have hnot := (List.mem_filter.mp hcandidate).2
  simp only [decide_eq_true_eq] at hnot
  exact hnot hk

theorem pruneRuns_get?_of_protected {protectedIds : List String}
    {s : State} {run : Run} (hk : k ∈ protectedIds) (hg : s.runs.get? k = some run) :
    (pruneRuns env protectedIds s).runs.get? k = some run := by
  have hkept : k ∉ prunedRuns env protectedIds s := by
    unfold prunedRuns
    simp only [List.mem_append, List.mem_flatMap, not_or, not_exists, not_and]
    exact ⟨fun _ _ => beyondLimit_not_mem hk, beyondLimit_not_mem hk⟩
  unfold pruneRuns
  simp only
  split
  · exact hg
  · simp only [rebuildIdempotency, Dict.get?_filter, hg]
    simp [Option.filter, hkept]

end CodexBridge.Automations
