import CodexBridge.Questions.Coordinator
import Mathlib.Data.List.Nodup

/-! # What the routines leave alone

Most routines only wait, save the ledger and change small things of an entry. A property that
survives these survives the routines.
-/

namespace CodexBridge.Questions

open Effect

/-! ## Waiting and saving -/

/-- A property that survives every `await` and every save. -/
structure Lasting (I : State → Prop) : Prop where
  after : ∀ s m, I s → I (s.after m)
  saved : ∀ s m stored, I s →
    (stored = s.stored ∨ stored = ledgerValue (lastEntries s.entries)) →
      I { s.after m with
        passed := s.passed ++ [ledgerValue (lastEntries s.entries)], stored := stored }

theorem routine_state (body : Routine Unit) (s : State) : (routine body s).2 = (body s).2 := by
  unfold routine attempt
  cases h : body s with
  | mk r t =>
    cases r with
    | ok a => rfl
    | error stop =>
      dsimp only
      split
      · rfl
      · rfl

theorem pause_state (s : State) : (pause s).2 = s.after (s.script.headD .quiet) := by
  unfold pause
  cases h : (s.script.headD .quiet).outcome <;> simp only [h]

section

variable {I : State → Prop}

theorem Lasting.and_ledger (h : Lasting I) (Q : List LedgerEntry → List Answer → Prop) :
    Lasting fun s => I s ∧ Q s.entries s.answers where
  after := fun s m hs => ⟨h.after s m hs.1, hs.2⟩
  saved := fun s m stored hs hstored => ⟨h.saved s m stored hs.1 hstored, hs.2⟩

theorem Lasting.pause (h : Lasting I) : Keeps I pause := by
  apply Keeps.of_state
  intro s hs
  rw [pause_state]
  exact h.after s _ hs

theorem persist_state (s : State) :
    (persist s).2 = s ∨ ∃ stored,
      (stored = s.stored ∨ stored = ledgerValue (lastEntries s.entries)) ∧
        (persist s).2 = { s.after (s.script.headD .quiet) with
          passed := s.passed ++ [ledgerValue (lastEntries s.entries)], stored := stored } := by
  unfold persist
  split
  · exact .inl rfl
  right
  by_cases h : (s.script.headD .quiet).outcome = .returned ∨ (s.script.headD .quiet).stores
  · refine ⟨ledgerValue (lastEntries s.entries), .inr rfl, ?_⟩
    cases hm : (s.script.headD .quiet).outcome <;> simp_all
  · refine ⟨s.stored, .inl rfl, ?_⟩
    cases hm : (s.script.headD .quiet).outcome <;> simp_all

section

variable (h : Lasting I)

include h

theorem Lasting.persist : Keeps I persist := by
  apply Keeps.of_state
  intro s hs
  cases persist_state s with
  | inl heq =>
    rw [heq]
    exact hs
  | inr hsaved =>
    obtain ⟨stored, hstored, heq⟩ := hsaved
    rw [heq]
    exact h.saved s _ stored hs hstored

theorem Lasting.persist_stored :
    Triple I Questions.persist
      (fun saved s => I s ∧ (saved = true → s.stored = ledgerValue (lastEntries s.entries)))
      (fun _ => I) := by
  intro s hs
  obtain ⟨hok, herr⟩ := h.persist s hs
  refine ⟨?_, herr⟩
  intro saved t ht
  refine ⟨hok saved t ht, ?_⟩
  intro hsaved
  subst hsaved
  unfold Questions.persist at ht
  split at ht
  · cases ht
  cases hm : (s.script.headD .quiet).outcome with
  | returned =>
    simp only [hm, true_or, if_true] at ht
    cases ht
    rfl
  | raised =>
    simp only [hm] at ht
    cases ht
  | cancelled =>
    simp only [hm] at ht
    cases ht
  | crashed =>
    simp only [hm] at ht
    cases ht

theorem Lasting.clearMobile (d : Destination) : Keeps I (clearMobile d) := by
  unfold Questions.clearMobile
  split
  · exact Keeps.pure
  refine Keeps.bind Keeps.read fun notify => ?_
  split
  · exact Keeps.pure
  refine Keeps.bind h.pause fun m => ?_
  split
  · exact Keeps.pure
  split
  · exact Keeps.pure
  split
  · exact Keeps.pure
  · exact Keeps.bind h.pause fun _ => Keeps.pure

theorem Lasting.clearPersistent : Keeps I clearPersistent := by
  unfold Questions.clearPersistent
  refine Keeps.bind Keeps.read fun services => ?_
  split
  · exact Keeps.pure
  · exact Keeps.bind h.pause fun _ => Keeps.pure

theorem Lasting.clearEntry (e : LedgerEntry) : Keeps I (clearEntry e) := by
  unfold Questions.clearEntry
  refine Keeps.bind (Keeps.forEach fun d _ => ?_) fun _ => ?_
  · exact Keeps.bind (h.clearMobile d) fun _ => Keeps.pure
  split
  · exact Keeps.bind h.clearPersistent fun _ => Keeps.pure
  · exact Keeps.pure

theorem Lasting.deliverPersistent : Keeps I deliverPersistent := by
  unfold Questions.deliverPersistent
  refine Keeps.bind Keeps.read fun services => ?_
  split
  · exact Keeps.bind h.pause fun _ => Keeps.pure
  · exact Keeps.pure

theorem Lasting.checkReply (host : Host) (e : LedgerEntry) (d : Destination)
    (a : ActionRow) (userId : String) (event : ActionEvent) :
    Keeps I (checkReply host e d a userId event) := by
  unfold Questions.checkReply
  refine Keeps.bind Keeps.read fun around => ?_
  split
  · exact Keeps.pure
  refine Keeps.bind h.pause fun found => ?_
  split
  · exact Keeps.pure
  refine Keeps.bind h.pause fun m => ?_
  split
  · exact Keeps.pure
  split
  · exact Keeps.pure
  split
  · exact Keeps.pure
  · exact Keeps.pure

theorem Lasting.revalidate (host : Host) (e : LedgerEntry) (d : Destination)
    (userId : String) : Keeps I (revalidate host e d userId) := by
  unfold Questions.revalidate
  refine Keeps.bind Keeps.read fun closed => ?_
  split
  · exact Keeps.pure
  refine Keeps.bind h.pause fun m => ?_
  split
  · exact Keeps.pure
  refine Keeps.bind Keeps.read fun around => ?_
  dsimp only
  split
  · exact Keeps.pure
  · refine Keeps.bind h.pause fun found => ?_
    exact Keeps.bind Keeps.read fun _ => Keeps.pure

end

end

/-- A property that also survives the marks of an entry. -/
structure Markable (I : State → Prop) : Prop extends Lasting I where
  persistent : ∀ id b, Keeps I (setEntry id fun e => { e with persistent := b })
  attempted : ∀ id registrationId b, Keeps I (setAttempted id registrationId b)

/-- A property that survives the loss of a destination of one entry, too. -/
structure Editable (I : State → Prop) (id : String) : Prop extends Markable I where
  removed : ∀ registrationId, Keeps I (removeDestination id registrationId)

section

variable {I : State → Prop}

theorem Markable.deliverMobile (h : Markable I) (id registrationId service : String) :
    Keeps I (deliverMobile id registrationId service) := by
  unfold Questions.deliverMobile
  refine Keeps.bind Keeps.read fun notify => ?_
  refine Keeps.bind (h.attempted id registrationId true) fun _ => ?_
  refine Keeps.bind h.persist fun saved => ?_
  split
  · exact h.attempted id registrationId false
  refine Keeps.bind Keeps.read fun closed => ?_
  split
  · exact Keeps.bind h.pause fun _ => Keeps.pure
  · exact Keeps.pure

theorem Markable.refreshPersistent (h : Markable I) (id : String) (wanted : Bool) :
    Keeps I (refreshPersistent id wanted) := by
  unfold Questions.refreshPersistent
  refine Keeps.bind Keeps.read fun e => ?_
  split
  · refine Keeps.bind (h.persistent id true) fun _ => ?_
    refine Keeps.bind h.persist fun saved => ?_
    split
    · refine Keeps.bind Keeps.read fun closed => ?_
      split
      · exact h.deliverPersistent
      · exact Keeps.pure
    · exact h.persistent id false
  · split
    · exact Keeps.bind h.clearPersistent fun _ => h.persistent id false
    · exact Keeps.pure

theorem Editable.dropDestinations {id : String} (h : Editable I id) (wanted : List Recipient) :
    Keeps I (dropDestinations id wanted) := by
  unfold Questions.dropDestinations
  refine Keeps.bind Keeps.read fun e => Keeps.forEach fun d _ => ?_
  split
  · exact Keeps.pure
  · exact Keeps.bind (h.clearMobile d) fun _ => h.removed d.registrationId

end

section

variable {host : Host}

def keptEntries (host : Host) (pending : List (String × Json)) (entries : List LedgerEntry) :
    List LedgerEntry :=
  entries.filter fun e =>
    (pendingItem pending e.interactionId).any fun item => sameQuestion host e item

theorem nodup_setPending {pending : List (String × Json)} (id : String) (item : Json)
    (h : (pending.map Prod.fst).Nodup) : ((setPending pending id item).map Prod.fst).Nodup := by
  unfold setPending
  split
  · have hkeys : (pending.map fun p => if p.1 = id then (id, item) else p).map Prod.fst =
        pending.map Prod.fst := by
      rw [List.map_map]
      apply List.map_congr_left
      intro p _
      show (if p.1 = id then (id, item) else p).1 = p.1
      split
      · rename_i heq
        exact heq.symm
      · rfl
    rw [hkeys]
    exact h
  · rename_i hnone
    rw [List.map_append]
    apply List.Nodup.append h (List.nodup_singleton _)
    apply List.disjoint_singleton.mpr
    intro hmem
    obtain ⟨p, hp, hid⟩ := List.mem_map.mp hmem
    exact hnone (List.any_eq_true.mpr ⟨p, hp, decide_eq_true hid⟩)

theorem nodup_pendingOf (now : Nat) (items : List Json) :
    ((pendingOf host now items).map Prod.fst).Nodup := by
  have hfold : ∀ pending : List (String × Json), (pending.map Prod.fst).Nodup →
      ((items.foldl (fun pending item =>
        if validInteraction host item ∧
            (expiryValue host (get item "expires_at")).any fun deadline => now < deadline then
          setPending pending (textOf item "interaction_id") item
        else pending) pending).map Prod.fst).Nodup := by
    induction items with
    | nil => exact fun _ h => h
    | cons item rest ih =>
      intro pending h
      rw [List.foldl_cons]
      apply ih
      split
      · exact nodup_setPending _ item h
      · exact h
  exact hfold [] List.nodup_nil

end

/-- A property of the ledger and of what was saved and sent, which survives what comes before a
comparison. -/
structure Startable (host : Host) (I : State → Prop) : Prop extends Lasting I where
  moved : ∀ s t, I s → t.entries = s.entries → t.stored = s.stored → t.drawn = s.drawn →
    t.passed = s.passed → t.answers = s.answers → I t
  cleared : ∀ s, I s → I { s with entries := [] }
  loads : ∀ s es, I s → normaliseLedger host.expiry s.stored = some es →
    I { s with entries := es, loaded := true }

def Input (host : Host) (input : Plan × List (String × Json)) : Prop :=
  ∃ now items, input.2 = pendingOf host now items

section

variable {host : Host} {I : State → Prop}

theorem Startable.clearAll (h : Startable host I) : Keeps I clearAll := by
  unfold Questions.clearAll
  refine Keeps.bind Keeps.read fun entries => ?_
  refine Keeps.bind (Keeps.forEach fun e _ => h.clearEntry e) fun _ => ?_
  refine Keeps.bind (Keeps.modify h.cleared) fun _ => ?_
  split
  · exact Keeps.bind h.persist fun _ => Keeps.pure
  · exact Keeps.pure

def Starts (host : Host) (I : State → Prop) (c : Routine (Plan × List (String × Json))) : Prop :=
  Triple I c (fun input s => Input host input ∧ I s) (fun _ => I)

theorem starts_leave : Starts host I leave := Triple.raise fun _ hs => hs

theorem starts_bind {α : Type} {c : Routine α} {f : α → Routine (Plan × List (String × Json))}
    (hc : Keeps I c) (hf : ∀ a, Starts host I (f a)) : Starts host I (c >>= f) :=
  Triple.bind hc hf

theorem Startable.refreshPlan (h : Startable host I) : Starts host I (refreshPlan host) := by
  unfold Questions.refreshPlan
  refine starts_bind h.pause fun _ => starts_bind Keeps.read fun closed => ?_
  split
  · exact starts_leave
  refine starts_bind Keeps.read fun on => ?_
  split
  · exact starts_bind h.clearAll fun _ => starts_leave
  refine starts_bind h.pause fun m => starts_bind Keeps.read fun closed => ?_
  split
  · exact starts_leave
  split
  · exact starts_leave
  refine starts_bind Keeps.read fun settings => ?_
  refine starts_bind h.pause fun found => ?_
  refine starts_bind Keeps.read fun now => ?_
  exact Triple.pure fun _ hs => ⟨⟨now, _, rfl⟩, hs⟩

theorem Startable.startPlan (h : Startable host I) : Starts host I (startPlan host) := by
  have hrest : Starts host I (do
      let on ← Effect.read isOn
      if ¬ on then do
        Questions.clearAll
        leave
      else do
        modify fun s => { s with listening := true }
        Questions.refreshPlan host) := by
    refine starts_bind Keeps.read fun on => ?_
    split
    · exact starts_bind h.clearAll fun _ => starts_leave
    · refine starts_bind (Keeps.modify fun s hs => ?_) fun _ => h.refreshPlan
      exact h.moved s _ hs rfl rfl rfl rfl rfl
  unfold Questions.startPlan
  refine starts_bind h.pause fun _ => starts_bind Keeps.read fun ended => ?_
  split
  · exact starts_leave
  refine starts_bind Keeps.read fun loaded => ?_
  split
  · refine starts_bind h.pause fun m => starts_bind Keeps.read fun closed => ?_
    apply Triple.bind (Q := fun stored s => I s ∧ s.stored = stored)
    · exact Triple.read fun s hs => ⟨hs, rfl⟩
    intro stored
    split
    · exact Triple.bind (Triple.raise fun _ hs => hs.1) fun _ => hrest
    cases hread : normaliseLedger host.expiry stored with
    | none => exact Triple.bind (Triple.raise fun _ hs => hs.1) fun _ => hrest
    | some es =>
      apply Triple.bind (Q := fun _ => I)
      · apply Triple.modify
        intro s hs
        exact h.loads s es hs.1 (by rw [hs.2, hread])
      · exact fun _ => hrest
  · exact hrest

theorem Startable.entryPlan (h : Startable host I) : Starts host I (entryPlan host) := by
  unfold Questions.entryPlan
  refine starts_bind Keeps.read fun closed => starts_bind Keeps.read fun loaded => ?_
  split
  · exact starts_leave
  split
  · exact h.startPlan
  · exact h.refreshPlan

theorem Starts.refreshed {c : Routine (Plan × List (String × Json))}
    (hc : Starts host I c) {s : State} (hs : I s)
    (hcompare : ∀ input t, c s = (.ok input, t) → Input host input → I t →
      I (refreshWith host input.1 input.2 t).2) :
    I (routine (do
      let input ← c
      refreshWith host input.1 input.2) s).2 := by
  obtain ⟨hok, herr⟩ := hc s hs
  rw [routine_state, bind_run]
  cases hr : c s with
  | mk r t =>
    cases r with
    | ok input =>
      obtain ⟨hinput, ht⟩ := hok input t hr
      exact hcompare input t hr hinput ht
    | error e => exact herr e t hr

/-- Where a step compares the pending questions with the ledger, `C` holds then. -/
def Compares (host : Host) (C : State → Plan × List (String × Json) → Prop) (s : State) :
    Step → Prop
  | .start script => ∀ input ∈ (startPlan host { s with script := script }).1.toOption,
      C (startPlan host { s with script := script }).2 input
  | .refresh script => ∀ input ∈ (entryPlan host { s with script := script }).1.toOption,
      C (entryPlan host { s with script := script }).2 input
  | _ => True

instance (C : State → Plan × List (String × Json) → Prop) [∀ s input, Decidable (C s input)]
    (s : State) : ∀ step, Decidable (Compares host C s step)
  | .start _ => inferInstanceAs (Decidable (∀ input ∈ Except.toOption _, _))
  | .refresh _ => inferInstanceAs (Decidable (∀ input ∈ Except.toOption _, _))
  | .action _ _ => isTrue trivial
  | .surround _ => isTrue trivial
  | .close => isTrue trivial
  | .restart => isTrue trivial

theorem Startable.next (h : Startable host I) {C : State → Plan × List (String × Json) → Prop}
    (hcompare : ∀ input t, Input host input → I t → C t input →
      I (refreshWith host input.1 input.2 t).2)
    (hreply : ∀ event, Keeps I (onAction host event)) {s t : State} {step : Step} (hs : I s)
    (hc : Compares host C s step) (hn : next host s step = some t) : I t := by
  have hrun : ∀ {c : Routine (Plan × List (String × Json))} {s : State}, Starts host I c → I s →
      (∀ input ∈ (c s).1.toOption, C (c s).2 input) →
      I (routine (do
        let input ← c
        refreshWith host input.1 input.2) s).2 := by
    intro c s hstarts hs hc
    apply hstarts.refreshed hs
    intro input t hok hinput ht
    rw [hok] at hc
    exact hcompare input t hinput ht (hc input rfl)
  cases step with
  | start script =>
    obtain ⟨_, hn⟩ := Option.ite_none_left_eq_some.mp hn
    cases hn
    have hscript : I { s with script := script } := h.moved s _ hs rfl rfl rfl rfl rfl
    exact h.moved _ _ (hrun h.startPlan hscript hc) rfl rfl rfl rfl rfl
  | refresh script =>
    obtain ⟨_, hn⟩ := Option.ite_none_left_eq_some.mp hn
    cases hn
    have hscript : I { s with script := script } := h.moved s _ hs rfl rfl rfl rfl rfl
    exact h.moved _ _ (hrun h.entryPlan hscript hc) rfl rfl rfl rfl rfl
  | action event script =>
    obtain ⟨_, hn⟩ := Option.ite_none_left_eq_some.mp hn
    cases hn
    have hscript : I { s with script := script } := h.moved s _ hs rfl rfl rfl rfl rfl
    exact h.moved _ _ ((hreply event).state hscript) rfl rfl rfl rfl rfl
  | surround surroundings =>
    cases hn
    exact h.moved s _ hs rfl rfl rfl rfl rfl
  | close =>
    obtain ⟨_, hn⟩ := Option.ite_none_left_eq_some.mp hn
    cases hn
    exact h.moved s _ hs rfl rfl rfl rfl rfl
  | restart =>
    cases hn
    exact h.moved _ _ (h.cleared s hs) rfl rfl rfl rfl rfl

end

end CodexBridge.Questions
