import CodexBridge.Panel.EventStream

/-! # The cursor and lost events

The cursor moves to the events the panel applies. A batch is sorted, freed of repeated sequences
and ids and cut to the latest events before it is applied, so an event above the cursor can be
dropped while a later one moves the cursor past it.
-/

namespace CodexBridge.Panel

/-! ## Normalised events -/

/-- `a` comes before `b` and has another id. -/
def Precedes (a b : Event) : Prop :=
  a.sequence < b.sequence ∧ ∀ id, a.eventId = some id → b.eventId ≠ some id

def Repeats (e : Event) (others : List Event) : Prop :=
  ∃ f ∈ others, ∃ id, e.eventId = some id ∧ f.eventId = some id

variable {e : Event}

theorem Repeats.mono {fs gs : List Event} (h : Repeats e fs)
    (hsub : ∀ f ∈ fs, f ∈ gs) : Repeats e gs := by
  obtain ⟨f, hf, hid⟩ := h
  exact ⟨f, hsub f hf, hid⟩

theorem Event.sequence_pos (e : Event) : 0 < e.sequence := by
  have hok := e.sequence_ok
  simp only [isSequence, Bool.and_eq_true, decide_eq_true_eq] at hok
  exact hok.1

theorem parseEvent_sequence {fields : List (String × Json)}
    (h : parseEvent (.obj fields) = some e) :
    Json.field? fields "sequence" = some (.int e.sequence) := by
  simp only [parseEvent] at h
  split at h
  · rename_i hsequence _ _ _ _
    split at h
    · split at h
      · cases h
        exact hsequence
      · cases h
    · cases h
  · cases h

theorem candidate_eq (item : Json) : candidate item = parseEvent item := by
  cases item with
  | obj fields =>
    simp only [candidate]
    by_cases hfalsy : (Json.field? fields "sequence").all isFalsy = true
    · rw [if_pos hfalsy]
      cases hparse : parseEvent (.obj fields) with
      | none => rfl
      | some e =>
        have hpos := e.sequence_pos
        rw [parseEvent_sequence hparse] at hfalsy
        cases he : e.sequence with
        | ofNat n =>
          cases n with
          | zero =>
            rw [he] at hpos
            exact absurd hpos (by decide)
          | succ n =>
            rw [he] at hfalsy
            cases hfalsy
        | negSucc n => omega
    · rw [if_neg hfalsy]
  | null => rfl
  | bool _ => rfl
  | int _ => rfl
  | float _ => rfl
  | str _ => rfl
  | arr _ => rfl

theorem candidates_value (events : List Event) :
    (events.map Event.value).filterMap candidate = events := by
  induction events with
  | nil => rfl
  | cons e events ih =>
    rw [List.map_cons, List.filterMap_cons_some, ih]
    rw [candidate_eq, parseEvent_value]

theorem unique_spec (events : List Event) (seenSequences : List Int) (seenIds : List String)
    (hsorted : events.Pairwise fun a b => a.sequence ≤ b.sequence) :
    (unique seenSequences seenIds events).Pairwise Precedes ∧
      ∀ e ∈ unique seenSequences seenIds events, e ∈ events ∧ e.sequence ∉ seenSequences ∧
        ∀ id ∈ e.eventId, id ∉ seenIds := by
  induction events generalizing seenSequences seenIds with
  | nil => simp [unique]
  | cons first rest ih =>
    have hrest := List.pairwise_cons.mp hsorted
    by_cases hseen : first.sequence ∈ seenSequences ∨ first.eventId.any (· ∈ seenIds)
    · have hprior := ih seenSequences seenIds hrest.2
      rw [unique, if_pos hseen]
      exact ⟨hprior.1, fun e he =>
        ⟨List.mem_cons_of_mem first (hprior.2 e he).1, (hprior.2 e he).2⟩⟩
    have hprior := ih (first.sequence :: seenSequences) (first.eventId.toList ++ seenIds)
      hrest.2
    rw [unique, if_neg hseen]
    constructor
    · refine List.pairwise_cons.mpr ⟨?_, hprior.1⟩
      intro e he
      obtain ⟨hmem, hsequence, hid⟩ := hprior.2 e he
      have hle := hrest.1 e hmem
      have hne : e.sequence ≠ first.sequence := fun h => hsequence (by simp [h])
      refine ⟨by omega, ?_⟩
      intro id hfirst hsame
      exact hid id hsame (by simp [hfirst])
    · intro e he
      cases List.mem_cons.mp he with
      | inl hthis =>
        subst hthis
        refine ⟨List.mem_cons_self, fun h => hseen (.inl h), ?_⟩
        intro id hid hmem
        exact hseen (.inr (by rw [Option.mem_def.mp hid]; simpa using hmem))
      | inr hlater =>
        obtain ⟨hmem, hsequence, hid⟩ := hprior.2 e hlater
        exact ⟨List.mem_cons_of_mem first hmem,
          fun h => hsequence (List.mem_cons_of_mem _ h),
          fun id hid' h => hid id hid' (List.mem_append_right _ h)⟩

theorem unique_eq_self (events : List Event) (seenSequences : List Int) (seenIds : List String)
    (hchain : events.Pairwise Precedes)
    (hnew : ∀ e ∈ events, e.sequence ∉ seenSequences ∧ ∀ id ∈ e.eventId, id ∉ seenIds) :
    unique seenSequences seenIds events = events := by
  induction events generalizing seenSequences seenIds with
  | nil => rfl
  | cons first rest ih =>
    have hrest := List.pairwise_cons.mp hchain
    have hfirst := hnew first List.mem_cons_self
    have hunseen : ¬ (first.sequence ∈ seenSequences ∨ first.eventId.any (· ∈ seenIds)) := by
      rintro (hsequence | hid)
      · exact hfirst.1 hsequence
      · obtain ⟨id, hid, hmem⟩ := Option.any_eq_true _ _ |>.mp hid
        exact hfirst.2 id hid (by simpa using hmem)
    rw [unique, if_neg hunseen, ih _ _ hrest.2]
    intro e he
    have hbefore := hrest.1 e he
    have hunseen' := hnew e (List.mem_cons_of_mem first he)
    constructor
    · intro h
      cases List.mem_cons.mp h with
      | inl hsame =>
        have hlt := hbefore.1
        omega
      | inr hmem => exact hunseen'.1 hmem
    · intro id hid h
      cases List.mem_append.mp h with
      | inl hsame =>
        have hid' : first.eventId = some id := by simpa using hsame
        exact hbefore.2 id hid' hid
      | inr hmem => exact hunseen'.2 id hid hmem

theorem latest_sublist (limit : Nat) (events : List Event) :
    (latest limit events).Sublist events := List.drop_sublist _ _

theorem mem_latest_of_mem {limit : Nat} {events : List Event}
    (h : e ∈ latest limit events) : e ∈ events := List.mem_of_mem_drop h

theorem normalizeEvents_spec (values : List Json) (maxEvents : ℚ) :
    (normalizeEvents values maxEvents).Pairwise Precedes ∧
      ∀ e ∈ normalizeEvents values maxEvents, e ∈ values.filterMap parseEvent := by
  have hcandidates : values.filterMap candidate = values.filterMap parseEvent :=
    congrArg (fun f => values.filterMap f) (funext candidate_eq)
  have hsorted := List.pairwise_insertionSort
    (fun left right : Event => left.sequence ≤ right.sequence) (values.filterMap candidate)
  have hunique := unique_spec _ [] [] hsorted
  unfold normalizeEvents
  constructor
  · exact hunique.1.sublist (latest_sublist _ _)
  intro e he
  have hmem := (hunique.2 e (mem_latest_of_mem he)).1
  rw [← hcandidates]
  exact List.mem_insertionSort _ |>.mp hmem

theorem normalizeEvents_chain {events : List Event} (h : events.Pairwise Precedes)
    (maxEvents : ℚ) : normalizeEvents (events.map Event.value) maxEvents =
      latest (eventLimit maxEvents) events := by
  have hsorted : events.Pairwise fun left right => left.sequence ≤ right.sequence :=
    h.imp fun hbefore => Int.le_of_lt hbefore.1
  rw [normalizeEvents, candidates_value, hsorted.insertionSort_eq,
    unique_eq_self events [] [] h (by simp)]

/-- The retained events are in order, and none is above the cursor. -/
structure Ordered (s : EventStream) : Prop where
  chain : s.events.Pairwise Precedes
  bound : ∀ e ∈ s.events, e.sequence ≤ s.cursor

def isControl (e : Event) : Bool :=
  e.eventType = "bridge.snapshot_required" || e.eventType = "bridge.error"

def EventStream.apply (s : EventStream) (e : Event) : EventStream :=
  { s with
    cursor := e.sequence
    events := latest (eventLimit s.maxEvents) (s.events ++ [e])
    needsSnapshot := false
    error := none }

inductive Accepts (s : EventStream) (e : Event) : EventStream × Verdict → Prop where
  | replay (old : e.sequence ≤ s.cursor) : Accepts s e (s, .refused .replay)
  | control (new : s.cursor < e.sequence) (next : EventStream) (control : Control)
      (boundary : isControl e = true ∨ s.needsSnapshot = true)
      (waits : next.needsSnapshot = true) (events : next.events = s.events)
      (cursor : next.cursor = e.sequence ∨ next.cursor = s.cursor) :
      Accepts s e (next, .accepted e (some control))
  | duplicate (new : s.cursor < e.sequence) (plain : isControl e = false)
      (open_ : s.needsSnapshot = false) (repeats : Repeats e s.events) :
      Accepts s e (s, .refused .duplicate)
  | applied (new : s.cursor < e.sequence) (plain : isControl e = false)
      (open_ : s.needsSnapshot = false) (fresh : ¬ Repeats e s.events) :
      Accepts s e (s.apply e, .accepted e none)

theorem repeats_iff {others : List Event} :
    (e.eventId.isSome ∧ others.any (fun item => item.eventId = e.eventId)) ↔ Repeats e others := by
  constructor
  · rintro ⟨hsome, hany⟩
    obtain ⟨id, hid⟩ := Option.isSome_iff_exists.mp hsome
    obtain ⟨f, hf, hsame⟩ := List.any_eq_true.mp hany
    have hsame' : f.eventId = e.eventId := of_decide_eq_true hsame
    exact ⟨f, hf, id, hid, hsame'.trans hid⟩
  · rintro ⟨f, hf, id, hid, hsame⟩
    have hany : others.any (fun item => item.eventId = e.eventId) = true :=
      List.any_eq_true.mpr ⟨f, hf, decide_eq_true (hsame.trans hid.symm)⟩
    exact ⟨by rw [hid]; rfl, hany⟩

variable {s : EventStream}

theorem Ordered.append (h : Ordered s) (hnew : s.cursor < e.sequence)
    (hfresh : ¬ Repeats e s.events) : (s.events ++ [e]).Pairwise Precedes := by
  refine List.pairwise_append.mpr ⟨h.chain, List.pairwise_singleton _ _, ?_⟩
  intro f hf last hlast
  rw [List.mem_singleton.mp hlast]
  have hbound := h.bound f hf
  exact ⟨by omega, fun id hid hsame => hfresh ⟨f, hf, id, hsame, hid⟩⟩

theorem acceptEvent_accepts (hs : Ordered s) (e : Event) : Accepts s e (acceptEvent s e.value) := by
  simp only [acceptEvent, parseEvent_value]
  by_cases hold : e.sequence ≤ s.cursor
  · rw [if_pos hold]
    exact .replay hold
  rw [if_neg hold]
  have hnew : s.cursor < e.sequence := by omega
  by_cases hsnapshot : e.eventType = "bridge.snapshot_required"
  · rw [if_pos hsnapshot]
    exact .control hnew _ .snapshot (.inl (by simp [isControl, hsnapshot])) rfl rfl (.inl rfl)
  rw [if_neg hsnapshot]
  by_cases herror : e.eventType = "bridge.error"
  · rw [if_pos herror]
    exact .control hnew _ .error (.inl (by simp [isControl, herror])) rfl rfl (.inl rfl)
  rw [if_neg herror]
  have hplain : isControl e = false := by simp [isControl, hsnapshot, herror]
  by_cases hwaits : s.needsSnapshot = true
  · rw [if_pos hwaits]
    exact .control hnew s .snapshot (.inr hwaits) hwaits rfl (.inr rfl)
  have hopen : s.needsSnapshot = false := Bool.eq_false_iff.mpr hwaits
  rw [if_neg hwaits]
  by_cases hrepeats : Repeats e s.events
  · rw [if_pos (repeats_iff.mpr hrepeats)]
    exact .duplicate hnew hplain hopen hrepeats
  rw [if_neg fun h => hrepeats (repeats_iff.mp h)]
  have hvalues : s.events.map Event.value ++ [e.value] =
      (s.events ++ [e]).map Event.value := by simp
  rw [hvalues, normalizeEvents_chain (hs.append hnew hrepeats)]
  exact .applied hnew hplain hopen hrepeats

theorem Ordered.apply (h : Ordered s) (hnew : s.cursor < e.sequence)
    (hfresh : ¬ Repeats e s.events) : Ordered (s.apply e) := by
  constructor
  · exact (h.append hnew hfresh).sublist (latest_sublist _ _)
  intro f hf
  cases List.mem_append.mp (mem_latest_of_mem hf) with
  | inl hbefore =>
    have hbound := h.bound f hbefore
    exact Int.le_trans hbound (Int.le_of_lt hnew)
  | inr hlast =>
    rw [List.mem_singleton.mp hlast]
    exact Int.le_refl _

/-! ## A batch -/

def Batch.applied (b : Batch) : List Event :=
  if b.controls = [] then b.accepted else b.accepted.dropLast

structure Follows (s : EventStream) (events : List Event) (b : Batch) : Prop where
  ordered : Ordered b.state
  cursor_le : s.cursor ≤ b.state.cursor
  applied : ∀ e ∈ b.applied, e ∈ events ∧ s.cursor < e.sequence ∧ e.sequence ≤ b.state.cursor
  retained : ∀ e ∈ b.state.events, e ∈ s.events ∨ e ∈ b.applied
  waits : s.needsSnapshot = true →
    b.applied = [] ∧ b.state.events = s.events ∧ b.state.needsSnapshot = true
  boundary : b.controls ≠ [] → b.state.needsSnapshot = true ∧
    ∃ c ∈ events, b.accepted = b.applied ++ [c] ∧ ∀ e ∈ b.applied, e.sequence < c.sequence
  control : ∀ c ∈ events, isControl c = true → s.cursor < c.sequence →
    b.state.needsSnapshot = true ∧ ∀ e ∈ b.applied, e.sequence < c.sequence
  taken : b.state.needsSnapshot = true ∨ ∀ e ∈ events, s.cursor < e.sequence →
    e ∈ b.applied ∨ Repeats e s.events

theorem Follows.skip {rest : List Event} {b : Batch}
    (h : Follows s rest b) (hplain : s.cursor < e.sequence → isControl e = false)
    (hrepeats : s.cursor < e.sequence → Repeats e s.events) : Follows s (e :: rest) b := by
  constructor
  · exact h.ordered
  · exact h.cursor_le
  · intro f hf
    have happlied := h.applied f hf
    exact ⟨List.mem_cons_of_mem e happlied.1, happlied.2⟩
  · exact h.retained
  · exact h.waits
  · intro hcontrols
    obtain ⟨hwaits, c, hc, haccepted⟩ := h.boundary hcontrols
    exact ⟨hwaits, c, List.mem_cons_of_mem e hc, haccepted⟩
  · intro c hc hcontrol hnew
    cases List.mem_cons.mp hc with
    | inl hthis =>
      rw [hthis] at hcontrol hnew
      rw [hplain hnew] at hcontrol
      cases hcontrol
    | inr hlater => exact h.control c hlater hcontrol hnew
  · cases h.taken with
    | inl hwaits => exact .inl hwaits
    | inr htaken =>
      refine .inr ?_
      intro f hf hnew
      cases List.mem_cons.mp hf with
      | inl hthis =>
        rw [hthis] at hnew ⊢
        exact .inr (hrepeats hnew)
      | inr hlater => exact htaken f hlater hnew

theorem applied_cons (e : Event) (b : Batch) (h : b.controls ≠ [] → b.accepted ≠ []) :
    ({ b with accepted := e :: b.accepted } : Batch).applied = e :: b.applied := by
  unfold Batch.applied
  by_cases hcontrols : b.controls = []
  · simp only [hcontrols, if_true]
  · simp only [hcontrols, if_false]
    exact List.dropLast_cons_of_ne_nil (h hcontrols)

theorem Follows.cons {rest : List Event} {b : Batch}
    (hnew : s.cursor < e.sequence) (hopen : s.needsSnapshot = false)
    (hplain : isControl e = false) (hchain : ∀ f ∈ rest, Precedes e f)
    (h : Follows (s.apply e) rest b) :
    Follows s (e :: rest) { b with accepted := e :: b.accepted } := by
  have happlied : ({ b with accepted := e :: b.accepted } : Batch).applied = e :: b.applied := by
    apply applied_cons
    intro hcontrols hnil
    obtain ⟨-, c, -, haccepted, -⟩ := h.boundary hcontrols
    rw [hnil] at haccepted
    simp at haccepted
  have hcursor : e.sequence ≤ b.state.cursor := h.cursor_le
  have hbefore {c : Event} (hc : c ∈ rest) (hprior : ∀ f ∈ b.applied, f.sequence < c.sequence) :
      ∀ f ∈ e :: b.applied, f.sequence < c.sequence := by
    intro f hf
    cases List.mem_cons.mp hf with
    | inl hthis =>
      rw [hthis]
      exact (hchain c hc).1
    | inr hlater => exact hprior f hlater
  constructor
  · exact h.ordered
  · exact Int.le_trans (Int.le_of_lt hnew) hcursor
  · rw [happlied]
    intro f hf
    cases List.mem_cons.mp hf with
    | inl hthis =>
      rw [hthis]
      exact ⟨List.mem_cons_self, hnew, hcursor⟩
    | inr hlater =>
      have hrest := h.applied f hlater
      exact ⟨List.mem_cons_of_mem e hrest.1, Int.lt_trans hnew hrest.2.1, hrest.2.2⟩
  · rw [happlied]
    intro f hf
    cases h.retained f hf with
    | inl hkept =>
      cases List.mem_append.mp (mem_latest_of_mem hkept) with
      | inl hold => exact .inl hold
      | inr hthis =>
        rw [List.mem_singleton.mp hthis]
        exact .inr List.mem_cons_self
    | inr hlater => exact .inr (List.mem_cons_of_mem e hlater)
  · intro hwaits
    rw [hopen] at hwaits
    cases hwaits
  · rw [happlied]
    intro hcontrols
    obtain ⟨hwaits, c, hc, haccepted, hprior⟩ := h.boundary hcontrols
    refine ⟨hwaits, c, List.mem_cons_of_mem e hc, ?_, hbefore hc hprior⟩
    rw [List.cons_append, ← haccepted]
  · rw [happlied]
    intro c hc hcontrol hnewC
    cases List.mem_cons.mp hc with
    | inl hthis =>
      rw [hthis, hplain] at hcontrol
      cases hcontrol
    | inr hlater =>
      have hafter := h.control c hlater hcontrol (hchain c hlater).1
      exact ⟨hafter.1, hbefore hlater hafter.2⟩
  · rw [happlied]
    cases h.taken with
    | inl hwaits => exact .inl hwaits
    | inr htaken =>
      refine .inr ?_
      intro f hf hnewF
      cases List.mem_cons.mp hf with
      | inl hthis =>
        rw [hthis]
        exact .inl List.mem_cons_self
      | inr hlater =>
        have hprecedes := hchain f hlater
        cases htaken f hlater hprecedes.1 with
        | inl hdone => exact .inl (List.mem_cons_of_mem e hdone)
        | inr hrepeats =>
          obtain ⟨g, hg, id, hid, hsame⟩ := hrepeats
          cases List.mem_append.mp (mem_latest_of_mem hg) with
          | inl hold => exact .inr ⟨g, hold, id, hid, hsame⟩
          | inr hthis =>
            rw [List.mem_singleton.mp hthis] at hsame
            exact absurd hid (hprecedes.2 id hsame)

theorem acceptEach_follows (hs : Ordered s) {events : List Event}
    (hchain : events.Pairwise Precedes) : Follows s events (acceptEach s events) := by
  induction events generalizing s with
  | nil =>
    exact ⟨hs, Int.le_refl _, by simp [acceptEach, Batch.applied], fun e he => .inl he,
      fun hwaits => ⟨rfl, rfl, hwaits⟩, by simp [acceptEach], by simp, .inr (by simp)⟩
  | cons e rest ih =>
    have hrest := List.pairwise_cons.mp hchain
    have haccepts := acceptEvent_accepts hs e
    rw [acceptEach]
    generalize acceptEvent s e.value = outcome at haccepts
    cases haccepts with
    | replay old =>
      exact (ih hs hrest.2).skip (fun hnew => absurd hnew (by omega))
        (fun hnew => absurd hnew (by omega))
    | control new next control boundary waits events cursor =>
      have happlied : (Batch.mk next [e] [control]).applied = [] := by
        simp [Batch.applied]
      have hle : s.cursor ≤ next.cursor := by
        cases cursor with
        | inl hmoved => omega
        | inr hsame => omega
      refine ⟨⟨?_, ?_⟩, hle, ?_, ?_, ?_, ?_, ?_, .inl waits⟩
      · exact events ▸ hs.chain
      · intro f hf
        exact Int.le_trans (hs.bound f (events ▸ hf)) hle
      · simp [happlied]
      · intro f hf
        exact .inl (events ▸ hf)
      · exact fun _ => ⟨happlied, events, waits⟩
      · intro _
        exact ⟨waits, e, List.mem_cons_self, by rw [happlied]; rfl, by simp [happlied]⟩
      · intro c _ _ _
        exact ⟨waits, by simp [happlied]⟩
    | duplicate new plain open_ repeats =>
      exact (ih hs hrest.2).skip (fun _ => plain) (fun _ => repeats)
    | applied new plain open_ fresh =>
      exact (ih (hs.apply new fresh) hrest.2).cons new open_ plain hrest.1

theorem acceptEach_open (hs : Ordered s) {events : List Event}
    (hopen : s.needsSnapshot = false) (hplain : ∀ e ∈ events, isControl e = false) :
    (acceptEach s events).state.needsSnapshot = false := by
  induction events generalizing s with
  | nil => exact hopen
  | cons e rest ih =>
    have hfirst := hplain e List.mem_cons_self
    have hrest : ∀ f ∈ rest, isControl f = false :=
      fun f hf => hplain f (List.mem_cons_of_mem e hf)
    have haccepts := acceptEvent_accepts hs e
    rw [acceptEach]
    generalize acceptEvent s e.value = outcome at haccepts
    cases haccepts with
    | replay old => exact ih hs hopen hrest
    | control new next control boundary waits events cursor =>
      rw [hfirst, hopen] at boundary
      cases boundary with
      | inl hcontrol => cases hcontrol
      | inr hwaits => cases hwaits
    | duplicate new plain open_ repeats => exact ih hs hopen hrest
    | applied new plain open_ fresh => exact ih (hs.apply new fresh) rfl hrest

/-! ## Calls -/

def Call.events : Call → List Event
  | .acceptEvent value => (parseEvent value).toList
  | .acceptEvents values => (items values).filterMap parseEvent
  | .resetEventStream _ => []

/-- Nothing is applied after a control until a reset, and nothing is retained that was not
applied. -/
structure StopsAtControls (s : EventStream) (call : Call) : Prop where
  waits : (∀ cursor, call ≠ .resetEventStream cursor) → s.needsSnapshot = true →
    (s.call call).applied = [] ∧ (s.call call).state.events = s.events ∧
      (s.call call).state.needsSnapshot = true
  boundary : (s.call call).controls ≠ [] → (s.call call).state.needsSnapshot = true ∧
    ∃ c ∈ call.events, (s.call call).accepted = (s.call call).applied ++ [c] ∧
      ∀ e ∈ (s.call call).applied, e.sequence < c.sequence
  retained : ∀ e ∈ (s.call call).state.events, e ∈ s.events ∨ e ∈ (s.call call).applied

/-- A given event that the cursor passes was applied, or repeats the id of a retained one, or a
snapshot is due; and after a given control one is due. -/
structure LosesNothing (s : EventStream) (call : Call) : Prop where
  control : ∀ c ∈ call.events, isControl c = true → s.cursor < c.sequence →
    (s.call call).state.needsSnapshot = true ∧ ∀ e ∈ (s.call call).applied, e.sequence < c.sequence
  passed : ∀ e ∈ call.events, s.cursor < e.sequence →
    e.sequence ≤ (s.call call).state.cursor →
    e ∈ (s.call call).applied ∨ Repeats e (s.events ++ (s.call call).applied) ∨
      (s.call call).state.needsSnapshot = true

/-- Every valid event of a batch above the cursor survives the normalisation, or shares its id with
a retained event or a survivor above the cursor and is no control. -/
def KeepsNew (s : EventStream) : Call → Prop
  | .acceptEvents values =>
    ∀ e ∈ (items values).filterMap parseEvent, s.cursor < e.sequence →
      e ∈ normalizeEvents (items values) maxRetainedEvents ∨
        isControl e = false ∧ Repeats e (s.events ++
          (normalizeEvents (items values) maxRetainedEvents).filter
            fun f => s.cursor < f.sequence)
  | _ => True

def Call.order : Call → List Event
  | .acceptEvent value => (parseEvent value).toList
  | .acceptEvents values => normalizeEvents (items values) maxRetainedEvents
  | .resetEventStream _ => []

theorem order_spec (call : Call) :
    call.order.Pairwise Precedes ∧ ∀ e ∈ call.order, e ∈ call.events := by
  cases call with
  | acceptEvent value =>
    refine ⟨?_, fun e he => he⟩
    cases hparse : parseEvent value with
    | none => simp [Call.order, hparse]
    | some e => simp [Call.order, hparse]
  | acceptEvents values => exact normalizeEvents_spec _ _
  | resetEventStream cursor => exact ⟨.nil, fun e he => he⟩

theorem acceptEvent_parsed (s : EventStream) {value : Json}
    (h : parseEvent value = some e) : acceptEvent s value = acceptEvent s e.value := by
  simp only [acceptEvent, h, parseEvent_value]

theorem call_eq (s : EventStream) (call : Call) (h : ∀ cursor, call ≠ .resetEventStream cursor) :
    s.call call = acceptEach s call.order := by
  cases call with
  | acceptEvent value =>
    cases hparse : parseEvent value with
    | none => simp [EventStream.call, Call.order, acceptEvent, hparse, acceptEach]
    | some e =>
      simp only [EventStream.call, Call.order, hparse, Option.toList_some, acceptEach,
        acceptEvent_parsed s hparse]
      cases acceptEvent s e.value with
      | mk next verdict =>
        cases verdict with
        | refused reason => rfl
        | accepted event control => cases control <;> rfl
  | acceptEvents values => rfl
  | resetEventStream cursor => exact absurd rfl (h cursor)

theorem call_follows (hs : Ordered s) (call : Call)
    (h : ∀ cursor, call ≠ .resetEventStream cursor) :
    Follows s call.order (s.call call) := by
  rw [call_eq s call h]
  exact acceptEach_follows hs (order_spec call).1

theorem ordered_new (cursor : Json) (maxEvents : Number) :
    Ordered (createEventStreamState cursor maxEvents) :=
  ⟨.nil, fun e he => by cases he⟩

theorem Ordered.call (hs : Ordered s) (call : Call) : Ordered (s.call call).state := by
  cases call with
  | acceptEvent value => exact (call_follows hs (.acceptEvent value) (by simp)).ordered
  | acceptEvents values => exact (call_follows hs (.acceptEvents values) (by simp)).ordered
  | resetEventStream cursor => exact ordered_new _ _

theorem stopsAtControls (hs : Ordered s) (call : Call) : StopsAtControls s call := by
  have hfollowed (h : ∀ cursor, call ≠ .resetEventStream cursor) : StopsAtControls s call := by
    have hfollows := call_follows hs call h
    refine ⟨fun _ => hfollows.waits, ?_, hfollows.retained⟩
    intro hcontrols
    obtain ⟨hwaits, c, hc, haccepted⟩ := hfollows.boundary hcontrols
    exact ⟨hwaits, c, (order_spec call).2 c hc, haccepted⟩
  cases call with
  | acceptEvent value => exact hfollowed (by simp)
  | acceptEvents values => exact hfollowed (by simp)
  | resetEventStream cursor =>
    exact ⟨fun h => absurd rfl (h cursor), fun h => absurd rfl h, fun e he => by cases he⟩

theorem losesNothing (hs : Ordered s) (call : Call) (hkeeps : KeepsNew s call) :
    LosesNothing s call := by
  have hfollowed (h : ∀ cursor, call ≠ .resetEventStream cursor)
      (hkept : ∀ e ∈ call.events, s.cursor < e.sequence → e ∈ call.order ∨
        isControl e = false ∧
          Repeats e (s.events ++ call.order.filter fun f => s.cursor < f.sequence)) :
      LosesNothing s call := by
    have hfollows := call_follows hs call h
    constructor
    · intro c hc hcontrol hnew
      cases hkept c hc hnew with
      | inl horder => exact hfollows.control c horder hcontrol hnew
      | inr hrepeats =>
        rw [hrepeats.1] at hcontrol
        cases hcontrol
    intro e he hnew _
    cases hfollows.taken with
    | inl hwaits => exact .inr (.inr hwaits)
    | inr htaken =>
      have hcovered {f : Event} (hf : f ∈ call.order) (hnewF : s.cursor < f.sequence) :
          f ∈ s.events ++ (s.call call).applied ∨ Repeats f s.events := by
        cases htaken f hf hnewF with
        | inl happlied => exact .inl (List.mem_append_right _ happlied)
        | inr hrepeats => exact .inr hrepeats
      cases hkept e he hnew with
      | inl horder =>
        cases htaken e horder hnew with
        | inl happlied => exact .inl happlied
        | inr hrepeats =>
          exact .inr (.inl (hrepeats.mono fun f hf => List.mem_append_left _ hf))
      | inr hrepeats =>
        obtain ⟨-, f, hf, id, hid, hsame⟩ := hrepeats
        refine .inr (.inl ?_)
        cases List.mem_append.mp hf with
        | inl hold => exact ⟨f, List.mem_append_left _ hold, id, hid, hsame⟩
        | inr hsurvives =>
          have hmem := List.mem_filter.mp hsurvives
          cases hcovered hmem.1 (of_decide_eq_true hmem.2) with
          | inl hkept => exact ⟨f, hkept, id, hid, hsame⟩
          | inr hagain =>
            obtain ⟨g, hg, id', hid', hsame'⟩ := hagain
            rw [hsame] at hid'
            cases hid'
            exact ⟨g, List.mem_append_left _ hg, id, hid, hsame'⟩
  cases call with
  | acceptEvent value => exact hfollowed (by simp) fun e he _ => .inl he
  | acceptEvents values => exact hfollowed (by simp) hkeeps
  | resetEventStream cursor =>
    constructor
    · intro c hc
      cases hc
    · intro e he
      cases he

def EventStream.run (s : EventStream) (calls : List Call) : EventStream :=
  calls.foldl (fun s call => (s.call call).state) s

theorem Ordered.run (hs : Ordered s) (calls : List Call) : Ordered (s.run calls) := by
  induction calls generalizing s with
  | nil => exact hs
  | cons call calls ih => exact ih (hs.call call)

/-- After any calls the retained events are in order and the next call stops at controls; it loses
nothing where the normalisation keeps the new events. -/
theorem cursor_passes_nothing (cursor : Json) (maxEvents : Number) (calls : List Call) :
    Ordered ((createEventStreamState cursor maxEvents).run calls) ∧
      ∀ call, StopsAtControls ((createEventStreamState cursor maxEvents).run calls) call ∧
        (KeepsNew ((createEventStreamState cursor maxEvents).run calls) call →
          LosesNothing ((createEventStreamState cursor maxEvents).run calls) call) := by
  have hordered := (ordered_new cursor maxEvents).run calls
  exact ⟨hordered, fun call => ⟨stopsAtControls hordered call, losesNothing hordered call⟩⟩

theorem isSequence_small {n : Nat} (h : n < 30000) : isSequence ((n : Int) + 1) = true := by
  simp only [isSequence, maxSafeInteger, Bool.and_eq_true, decide_eq_true_eq]
  omega

theorem isEventId_none : (none : Option String).all isEventId = true := rfl

def plainEvent (n : Nat) (h : n < 30000) (eventType : String)
    (htype : isEventType eventType = true) : Event :=
  ⟨(n : Int) + 1, eventType, none, none, [], isSequence_small h, htype, isEventId_none,
    isEventId_none⟩

theorem eventLimit_max : eventLimit maxRetainedEvents = 25000 := by
  simp [eventLimit, maxRetainedEvents]

theorem parsed_values (events : List Event) :
    (events.map Event.value).filterMap parseEvent = events := by
  rw [← funext candidate_eq]
  exact candidates_value events

/-- Two events of a chat after the start, in the wrong order. -/
theorem cursor_passes_nothing_two :
    LosesNothing (createEventStreamState (.int 0) (.finite 2))
      (.acceptEvents (.arr ([plainEvent 1 (by decide) "message.created" (by decide),
        plainEvent 0 (by decide) "message.created" (by decide)].map Event.value))) := by
  refine ((cursor_passes_nothing (.int 0) (.finite 2) []).2 _).2 ?_
  have hkept : ∀ e ∈ [plainEvent 1 (by decide) "message.created" (by decide),
      plainEvent 0 (by decide) "message.created" (by decide)],
      e ∈ latest 25000 (unique [] [] ([plainEvent 1 (by decide) "message.created" (by decide),
        plainEvent 0 (by decide) "message.created" (by decide)].insertionSort
          fun left right => left.sequence ≤ right.sequence)) := by decide +kernel
  intro e he _
  left
  rw [items, parsed_values] at he
  rw [items, normalizeEvents, candidates_value, eventLimit_max]
  exact hkept e he

def messageAt (i : Fin 25000) : Event :=
  plainEvent (i.val + 1) (by omega) "message.created" (by decide)

def messages : List Event := (List.finRange 25000).map messageAt

def overlong : List Event :=
  plainEvent 0 (by decide) "bridge.snapshot_required" (by decide) :: messages

theorem mem_messages : e ∈ messages ↔ ∃ i, messageAt i = e := by
  rw [messages, List.mem_map]
  simp only [List.mem_finRange, true_and]

theorem messageAt_sequence (i : Fin 25000) : (messageAt i).sequence = (i.val : Int) + 2 := by
  simp only [messageAt, plainEvent]
  omega

theorem overlong_chain : overlong.Pairwise Precedes := by
  refine List.pairwise_cons.mpr ⟨?_, ?_⟩
  · intro e he
    obtain ⟨i, rfl⟩ := mem_messages.mp he
    refine ⟨?_, fun id hid => by cases hid⟩
    rw [messageAt_sequence]
    simp only [plainEvent]
    omega
  · refine List.pairwise_map.mpr ((List.pairwise_lt_finRange 25000).imp ?_)
    intro i j hlt
    refine ⟨?_, fun id hid => by cases hid⟩
    rw [messageAt_sequence, messageAt_sequence]
    omega

/-- The batch of a control and 25 000 messages: the control is cut off, the messages move the cursor
past it, and no snapshot is due. -/
theorem overlong_lost :
    ∃ e ∈ (Call.acceptEvents (.arr (overlong.map Event.value))).events,
      (createEventStreamState (.int 0) (.finite 25000)).cursor < e.sequence ∧
      e.sequence ≤ ((createEventStreamState (.int 0) (.finite 25000)).call
        (.acceptEvents (.arr (overlong.map Event.value)))).state.cursor ∧
      e ∉ ((createEventStreamState (.int 0) (.finite 25000)).call
        (.acceptEvents (.arr (overlong.map Event.value)))).applied ∧
      ¬ Repeats e ((createEventStreamState (.int 0) (.finite 25000)).events ++
        ((createEventStreamState (.int 0) (.finite 25000)).call
          (.acceptEvents (.arr (overlong.map Event.value)))).applied) ∧
      ((createEventStreamState (.int 0) (.finite 25000)).call
        (.acceptEvents (.arr (overlong.map Event.value)))).state.needsSnapshot = false := by
  set s := createEventStreamState (.int 0) (.finite 25000) with hs
  have hkept : normalizeEvents (overlong.map Event.value) maxRetainedEvents = messages := by
    have hlength : overlong.length = 25001 := by simp [overlong, messages]
    rw [normalizeEvents_chain overlong_chain, eventLimit_max, latest, hlength, overlong,
      List.drop_one, List.tail_cons]
  have hcall : s.call (.acceptEvents (.arr (overlong.map Event.value))) =
      acceptEach s messages := by
    simp only [EventStream.call, acceptEvents, items, hkept]
  have hordered : Ordered s := ordered_new _ _
  have hchain : messages.Pairwise Precedes := (List.pairwise_cons.mp overlong_chain).2
  have hfollows := acceptEach_follows hordered hchain
  have hopen : (acceptEach s messages).state.needsSnapshot = false := by
    apply acceptEach_open hordered rfl
    intro e he
    obtain ⟨i, rfl⟩ := mem_messages.mp he
    rfl
  rw [hcall]
  refine ⟨plainEvent 0 (by decide) "bridge.snapshot_required" (by decide), ?_, ?_, ?_, ?_, ?_,
    hopen⟩
  · simp only [Call.events, items, parsed_values, overlong]
    exact List.mem_cons_self
  · decide
  · have hfirst : messageAt 0 ∈ messages := mem_messages.mpr ⟨0, rfl⟩
    cases hfollows.taken with
    | inl hwaits =>
      rw [hopen] at hwaits
      cases hwaits
    | inr htaken =>
      cases htaken _ hfirst (by decide) with
      | inl happlied =>
        have hle := (hfollows.applied _ happlied).2.2
        exact Int.le_trans (by decide) hle
      | inr hrepeats =>
        obtain ⟨f, hf, -⟩ := hrepeats
        cases hf
  · intro happlied
    obtain ⟨i, hi⟩ := mem_messages.mp (hfollows.applied _ happlied).1
    have hsame := congrArg Event.sequence hi
    rw [messageAt_sequence] at hsame
    simp only [plainEvent] at hsame
    omega
  · rintro ⟨f, -, id, hid, -⟩
    cases hid

end CodexBridge.Panel
