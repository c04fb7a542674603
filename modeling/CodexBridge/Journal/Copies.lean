import CodexBridge.Journal.Fork

/-! # What a fork journals

A thread that is new has only the events the fork's operation appends. Retention spares
the copies, as there are no more of them than of the events copied and they are no
longer.
-/

namespace CodexBridge.Journal

open Effect

/-! ## Retention spares what fits -/

def HasRoom (env : Environment) (scope : Scope) (count bytes : Nat) : Prop :=
  (count ≤ (retentionLimits env scope).1 ∧ bytes ≤ (retentionLimits env scope).2) ∨ count ≤ 1

variable {env : Environment}

theorem HasRoom.of_le {scope : Scope} {count bytes count' bytes' : Nat}
    (h : HasRoom env scope count bytes) (hc : count' ≤ count) (hb : bytes' ≤ bytes) :
    HasRoom env scope count' bytes' := by
  unfold HasRoom at h ⊢
  omega

theorem evictionScan_append {excessCount excessBytes retained : Nat} (front tail : List EventRow)
    (count bytes through : Nat)
    (h : ¬ ((count + front.length < excessCount ∨ bytes + bytesOf front < excessBytes) ∧
      1 < retained - (count + front.length))) :
    evictionScan excessCount excessBytes retained (front ++ tail) (count, bytes, through) =
      evictionScan excessCount excessBytes retained front (count, bytes, through) := by
  induction front generalizing count bytes through with
  | nil =>
    cases tail with
    | nil => rfl
    | cons row tail =>
      have hstop : ¬ ((count < excessCount ∨ bytes < excessBytes) ∧ 1 < retained - count) := h
      show evictionScan excessCount excessBytes retained (row :: tail) _ = _
      unfold evictionScan
      rw [if_neg hstop]
  | cons row front ih =>
    have hbytes : bytesOf (row :: front) = row.payloadBytes + bytesOf front := by
      simp [bytesOf]
    rw [List.length_cons, hbytes] at h
    rw [List.cons_append]
    unfold evictionScan
    split
    · apply ih
      have hcount : count + 1 + front.length = count + (front.length + 1) := by omega
      have hsum : bytes + row.payloadBytes + bytesOf front =
          bytes + (row.payloadBytes + bytesOf front) := by omega
      rw [hcount, hsum]
      exact h
    · rfl

/-- Eviction takes from the front and leaves a tail that fits. -/
theorem enforceScopeRetention_spares {db : Database} (ha : Accounted db) {scope : Scope}
    {snapshot maxCount maxBytes : Nat} {front tail : List EventRow}
    (hrows : eventsOf db scope = front ++ tail)
    (hfits : (tail.length ≤ maxCount ∧ bytesOf tail ≤ maxBytes) ∨ tail.length ≤ 1) :
    ∃ rest, rest <:+ front ∧
      eventsOf (enforceScopeRetention db scope snapshot maxCount maxBytes).1 scope =
        rest ++ tail := by
  have hcount : (scopeState db scope).retainedCount = front.length + tail.length := by
    rw [ha.counted, hrows, List.length_append]
  have hbytes : (scopeState db scope).retainedBytes = bytesOf front + bytesOf tail := by
    rw [ha.weighed, hrows, bytesOf_append]
  have hscan : evictionScan ((scopeState db scope).retainedCount - maxCount)
      ((scopeState db scope).retainedBytes - maxBytes) (scopeState db scope).retainedCount
      (front ++ tail) (0, 0, 0) =
      evictionScan ((scopeState db scope).retainedCount - maxCount)
        ((scopeState db scope).retainedBytes - maxBytes) (scopeState db scope).retainedCount
        front (0, 0, 0) :=
    evictionScan_append front tail 0 0 0 (by omega)
  obtain ⟨taken, rest, hfront, htaken, _, _⟩ := evictionScan_spec
    ((scopeState db scope).retainedCount - maxCount)
    ((scopeState db scope).retainedBytes - maxBytes) (scopeState db scope).retainedCount
    front 0 0 0
  rw [htaken, ← hrows] at hscan
  unfold enforceScopeRetention
  simp only
  split
  · exact ⟨front, List.suffix_refl front, hrows⟩
  unfold eventsOf at hscan
  rw [hscan]
  simp only
  split
  · exact ⟨front, List.suffix_refl front, hrows⟩
  rename_i hthrough
  cases hlast : taken.getLast? with
  | none =>
    rw [hlast] at hthrough
    exact absurd rfl hthrough
  | some last =>
    refine ⟨rest, ⟨taken, hfront.symm⟩, ?_⟩
    have hsplit : eventsOf db scope = taken ++ (rest ++ tail) := by
      rw [hrows, hfront, List.append_assoc]
    have hsorted : (taken ++ (rest ++ tail)).Pairwise fun a b => a.cursor < b.cursor := by
      rw [← hsplit]
      exact ha.ordered.sorted.filter _
    obtain ⟨_, hkept⟩ := filter_le_last hsorted hlast
    change eventsOf (lowered db scope _ _ _ _) scope = _
    rw [eventsOf_lowered, if_pos rfl]
    unfold keptAbove
    rw [hsplit]
    exact hkept

structure Files (env : Environment) (event : EnvelopeEvent) (e : EventRow) : Prop where
  scope : e.scope = event.scope
  eventType : e.eventType = event.eventType
  payload : e.payload = event.payload
  weighed : e.payloadBytes = env.payloadBytes event.payload

def EnvelopeEvent.Projected (event : EnvelopeEvent) : Prop :=
  projectPayload event.eventType (.obj event.payload) = .ok event.payload

theorem projectPayload_projected {eventType : String} {payload : Json} {fields : Payload}
    (h : projectPayload eventType payload = .ok fields) :
    projectPayload eventType (.obj fields) = .ok fields := by
  cases payload with
  | obj given =>
    unfold projectPayload at h ⊢
    cases hkept : publicEventFields eventType with
    | none =>
      rw [hkept] at h
      cases h
      exact congrArg Except.ok (Json.sortedFields_of_sublist (List.Sublist.refl _))
    | some kept =>
      rw [hkept] at h
      cases h
      have hall : (Json.sortedFields (given.filter fun f => f.1 ∈ kept)).filter
          (fun f => f.1 ∈ kept) = Json.sortedFields (given.filter fun f => f.1 ∈ kept) := by
        refine List.filter_eq_self.mpr fun f hf => ?_
        obtain ⟨g, hg, rfl⟩ := Json.mem_sortedFields.mp hf
        exact (List.mem_filter.mp hg).2
      simp only [hall]
      exact congrArg Except.ok (Json.sortedFields_of_sublist (List.Sublist.refl _))
  | _ => cases h

theorem normalizeScope_name (scope scope' : Scope)
    (h : normalizeScope scope.name.text scope.threadId = .ok scope') : scope' = scope := by
  cases scope with
  | thread threadId =>
    change (boundedIdentifier threadId "thread id" 128).map Scope.thread = .ok scope' at h
    obtain ⟨checked, hc, rfl⟩ := except_map_eq_ok.mp h
    rw [boundedIdentifier_eq hc]
  | auth =>
    cases h
    rfl
  | runtime =>
    cases h
    rfl

theorem checkAppend_event {operationId : String} {event : EnvelopeEvent}
    {draws : Draws} {c : CheckedAppend} (hp : event.Projected)
    (h : checkAppend env (eventRequest operationId event) draws = .ok c) (db : Database) :
    Files env event (newEvent db c) ∧ c.scope = event.scope ∧
      (newEvent db c).scopeSequence = nextOf db event.scope := by
  unfold checkAppend at h
  obtain ⟨scope, hscope, h⟩ := except_bind_eq_ok.mp h
  obtain ⟨_, _, h⟩ := except_bind_eq_ok.mp h
  obtain ⟨eventType, htype, h⟩ := except_bind_eq_ok.mp h
  obtain ⟨_, _, h⟩ := except_bind_eq_ok.mp h
  obtain ⟨_, h⟩ := refuse_bind_eq_ok.mp h
  obtain ⟨_, _, h⟩ := except_bind_eq_ok.mp h
  obtain ⟨payload, hpayload, h⟩ := except_bind_eq_ok.mp h
  obtain ⟨_, h⟩ := refuse_bind_eq_ok.mp h
  obtain ⟨_, _, h⟩ := except_bind_eq_ok.mp h
  cases h
  have hs := normalizeScope_name event.scope scope hscope
  have ht : eventType = event.eventType := boundedIdentifier_eq htype
  subst hs ht
  have hsame : payload = event.payload := Except.ok.inj (hpayload.symm.trans hp)
  subst hsame
  exact ⟨⟨rfl, rfl, rfl, rfl⟩, rfl, rfl⟩

/-- An append puts the new row after those of its scope; of the older ones it leaves a tail
that fits beside it. -/
theorem append_spares {db db' : Database} {request : AppendRequest}
    {draws : Draws} {record : Record} (ha : Accounted db)
    (h : append env db request draws = .ok (record, true, db')) :
    ∃ c, checkAppend env request draws = .ok c ∧ record = eventRecord (newEvent db c) ∧
      (∀ e ∈ db'.events, e ∈ db.events ∨ e = newEvent db c) ∧
      ∀ front tail, eventsOf db c.scope = front ++ tail →
        HasRoom env c.scope (tail ++ [newEvent db c]).length (bytesOf (tail ++ [newEvent db c])) →
          ∃ rest, rest <:+ front ∧ eventsOf db' c.scope = rest ++ (tail ++ [newEvent db c]) := by
  obtain ⟨c, projected, hc, _, _, hrecord, hp, hk⟩ := append_inserted h
  obtain ⟨transcript, lifecycle, heq⟩ := projectEvent_spec hp
  have hsame : SameEvents (insertEvent db c) projected := by
    rw [heq]
    exact SameEvents.of_eq rfl rfl rfl
  refine ⟨c, hc, hrecord, ?_, ?_⟩
  · intro e he
    have hin := (retain_sheds ((ha.insertEvent c).of_same hsame) hk).sublist.mem he
    rw [hsame.events, insertEvent_events] at hin
    rcases List.mem_append.mp hin with hold | hnew
    · exact .inl hold
    · exact .inr (List.mem_singleton.mp hnew)
  intro front tail hrows hroom
  have hinserted : eventsOf projected c.scope = front ++ (tail ++ [newEvent db c]) := by
    rw [hsame.eventsOf, eventsOf_insertEvent, if_pos rfl, hrows, List.append_assoc]
  obtain ⟨rest, hsuffix, hkept⟩ := enforceScopeRetention_spares
    ((ha.insertEvent c).of_same hsame) hinserted hroom
  refine ⟨rest, hsuffix, ?_⟩
  rw [(retain_spec hk).eventsOf]
  exact hkept

structure Journaled (env : Environment) (scope : Scope) (events : List EnvelopeEvent)
    (db db' : Database) (results : List (Record × Bool)) (rows : List EventRow) : Prop where
  files : List.Forall₂ (Files env) events rows
  results : results = rows.map fun e => (eventRecord e, true)
  ascending : rows.Pairwise fun a b => a.scopeSequence < b.scopeSequence
  after : ∀ e ∈ rows, nextOf db scope ≤ e.scopeSequence
  old : ∀ e ∈ db'.events, e ∈ db.events ∨ e ∈ rows
  free : ∀ key, (∀ event ∈ events, key ≠ event.operationKey) → db.ledger.get? key = none →
    db'.ledger.get? key = none
  spared : ∀ front tail, eventsOf db scope = front ++ tail →
    HasRoom env scope (tail ++ rows).length (bytesOf (tail ++ rows)) →
      ∃ rest, rest <:+ front ∧ eventsOf db' scope = rest ++ (tail ++ rows)

theorem appendEvents_journaled {id : String} {isFull : String → Bool}
    {scope : Scope} {events : List EnvelopeEvent} {results : List (Record × Bool)}
    {db db' : Database} {log : List Entry} (hs : Sequenced ⟨db, log⟩)
    (hscope : ∀ event ∈ events, event.scope = scope)
    (hprojected : ∀ event ∈ events, event.Projected)
    (hfree : ∀ event ∈ events, db.ledger.get? event.operationKey = none)
    (hnodup : (events.map EnvelopeEvent.operationKey).Nodup)
    (h : appendEvents env id isFull events db = .ok (results, db')) :
    ∃ rows, Journaled env scope events db db' results rows := by
  induction events generalizing db results log with
  | nil =>
    cases h
    refine ⟨[], .nil, rfl, .nil, ?_, ?_, ?_, ?_⟩
    · intro e he
      cases he
    · intro e he
      exact .inl he
    · intro key _ hnone
      exact hnone
    · intro front tail hrows _
      refine ⟨front, List.suffix_refl front, ?_⟩
      rw [List.append_nil]
      exact hrows
  | cons event rest ih =>
    unfold appendEvents at h
    obtain ⟨⟨record, inserted, next⟩, hfirst, h⟩ := except_bind_eq_ok.mp h
    obtain ⟨⟨records, last⟩, hrest, h⟩ := except_bind_eq_ok.mp h
    cases h
    obtain ⟨hins, hfree', htail⟩ := append_free_rest hfree hnodup hfirst
    subst hins
    have hevent := hscope event List.mem_cons_self
    have hnext : Sequenced ⟨next, log ++ [.event record]⟩ :=
      (Step.append (K := True) hfirst).sequenced hs
    obtain ⟨rows, hjournaled⟩ := ih hnext (fun e he => hscope e (List.mem_cons_of_mem event he))
      (fun e he => hprojected e (List.mem_cons_of_mem event he)) hfree' htail hrest
    obtain ⟨c, hc, hrecord, hold, hspared⟩ := append_spares hs.accounted hfirst
    obtain ⟨hfiles, hcscope, hsequence⟩ :=
      checkAppend_event (hprojected event List.mem_cons_self) hc db
    have hgrows : (newEvent db c).scopeSequence < nextOf next scope := by
      have hlogged : record ∈ journaledEvents (log ++ [.event record]) := by
        rw [mem_journaledEvents]
        exact List.mem_append_right log List.mem_cons_self
      have hlt := (hnext.sequences record hlogged).2
      rw [hrecord] at hlt
      change (newEvent db c).scopeSequence < nextOf next c.scope at hlt
      rwa [hcscope, hevent] at hlt
    refine ⟨newEvent db c :: rows, .cons hfiles hjournaled.files, ?_, ?_, ?_, ?_, ?_, ?_⟩
    · rw [hjournaled.results, hrecord]
      rfl
    · refine List.pairwise_cons.mpr ⟨?_, hjournaled.ascending⟩
      intro e he
      have hle := hjournaled.after e he
      omega
    · intro e he
      rw [hevent] at hsequence
      rcases List.mem_cons.mp he with heq | he
      · rw [heq]
        omega
      · have hle := hjournaled.after e he
        omega
    · intro e he
      rcases hjournaled.old e he with he | he
      · rcases hold e he with he | he
        · exact .inl he
        · exact .inr (he ▸ List.mem_cons_self)
      · exact .inr (List.mem_cons_of_mem _ he)
    · intro key hother hnone
      have hkept := (append_free (hfree event List.mem_cons_self) hfirst).2 key
        (hother event List.mem_cons_self) hnone
      exact hjournaled.free key (fun e he => hother e (List.mem_cons_of_mem event he)) hkept
    · intro front tail hrows hroom
      rw [hcscope, hevent] at hspared
      have hlist : tail ++ newEvent db c :: rows = (tail ++ [newEvent db c]) ++ rows := by
        rw [List.append_assoc, List.singleton_append]
      rw [hlist] at hroom ⊢
      have hfirstRoom := hroom.of_le (List.length_append ▸ Nat.le_add_right _ rows.length)
        (bytesOf_append _ rows ▸ Nat.le_add_right _ (bytesOf rows))
      obtain ⟨kept, hkept, hmid⟩ := hspared front tail hrows hfirstRoom
      obtain ⟨rest', hrest', hlast⟩ := hjournaled.spared kept (tail ++ [newEvent db c]) hmid hroom
      exact ⟨rest', hrest'.trans hkept, hlast⟩

theorem appendEvents_append {id : String} {isFull : String → Bool}
    {first second : List EnvelopeEvent} {results : List (Record × Bool)} {db db' : Database}
    (h : appendEvents env id isFull (first ++ second) db = .ok (results, db')) :
    ∃ opening mid rest, appendEvents env id isFull first db = .ok (opening, mid) ∧
      appendEvents env id isFull second mid = .ok (rest, db') ∧ results = opening ++ rest := by
  induction first generalizing db results with
  | nil => exact ⟨[], db, results, rfl, h, rfl⟩
  | cons event first ih =>
    rw [List.cons_append] at h
    unfold appendEvents at h
    obtain ⟨⟨record, inserted, next⟩, hfirst, h⟩ := except_bind_eq_ok.mp h
    obtain ⟨⟨records, last⟩, hrest, h⟩ := except_bind_eq_ok.mp h
    cases h
    obtain ⟨opening, mid, rest, hopening, hsecond, heq⟩ := ih hrest
    refine ⟨(record, inserted) :: opening, mid, rest, ?_, hsecond, ?_⟩
    · unfold appendEvents
      exact except_bind_eq_ok.mpr ⟨_, hfirst, except_bind_eq_ok.mpr ⟨_, hopening, rfl⟩⟩
    · rw [heq, List.cons_append]

/-! ## Copies -/

structure Encodes (draft : EventDraft) (event : EnvelopeEvent) : Prop where
  scope : normalizeScope draft.scope draft.threadId = .ok event.scope
  eventType : event.eventType = draft.eventType
  payload : projectPayload draft.eventType draft.payload = .ok event.payload

theorem Encodes.projected {draft : EventDraft} {event : EnvelopeEvent} (h : Encodes draft event) :
    event.Projected := by
  unfold EnvelopeEvent.Projected
  rw [h.eventType]
  exact projectPayload_projected h.payload

theorem encodeDrafts_encodes {id : String} {now : Nat → String} {index : Nat}
    {drafts : List EventDraft} {events : List EnvelopeEvent}
    (h : encodeDrafts env id now index drafts = .ok events) :
    List.Forall₂ Encodes drafts events := by
  induction drafts generalizing index events with
  | nil =>
    cases h
    exact .nil
  | cons draft rest ih =>
    unfold encodeDrafts at h
    obtain ⟨scope, hscope, h⟩ := except_bind_eq_ok.mp h
    obtain ⟨eventType, htype, h⟩ := except_bind_eq_ok.mp h
    obtain ⟨payload, hpayload, h⟩ := except_bind_eq_ok.mp h
    obtain ⟨encoded, hrest, h⟩ := except_bind_eq_ok.mp h
    cases h
    have ht : eventType = draft.eventType := boundedIdentifier_eq htype
    subst ht
    exact .cons ⟨hscope, rfl, hpayload⟩ (ih hrest)

theorem bind_str?_eq_some {value : Option Json} {s : String} :
    value.bind Json.str? = some s ↔ value = some (.str s) := by
  cases value with
  | none => simp
  | some value =>
    cases value with
    | str text => simp [Json.str?]
    | _ => simp [Json.str?]

def Carries (r : Record) (role text : String) : Prop :=
  (r.eventType = "message.created" ∨ r.eventType = "message.completed") ∧
    Json.field? r.payload "role" = some (.str role) ∧
    Json.field? r.payload "text" = some (.str text) ∧ (role = "user" ∨ role = "assistant")

variable {newId : String} {r : Record}

theorem copyDraft_eq_some {draft : EventDraft} :
    copyDraft newId r = some draft ↔ ∃ role text, Carries r role text ∧
      draft = ⟨"thread", r.eventType, .obj [("role", .str role), ("text", .str text)],
        some newId, none⟩ := by
  unfold copyDraft Carries
  constructor
  · intro h
    rcases Runs.enabled h with ⟨htype, h⟩
    split at h
    · rename_i role text hrole htext
      rcases Runs.taken h with ⟨hvisible, rfl⟩
      exact ⟨role, text, ⟨htype, bind_str?_eq_some.mp hrole, bind_str?_eq_some.mp htext,
        hvisible⟩, rfl⟩
    · cases h
  · rintro ⟨role, text, ⟨htype, hrole, htext, hvisible⟩, rfl⟩
    rw [if_pos htype, bind_str?_eq_some.mpr hrole, bind_str?_eq_some.mpr htext]
    exact if_pos hvisible

theorem not_removed {eventType : String}
    (h : eventType = "message.created" ∨ eventType = "message.completed") :
    eventType ≠ "message.removed" := by
  rcases h with h | h
  · rw [h]
    decide
  · rw [h]
    decide

/-- What such a message shows. -/
theorem originalText_of_carries {role text : String} (h : Carries r role text) :
    originalText env r = if env.mentionsCredential text then none else some (role, text) := by
  obtain ⟨htype, hrole, htext, hvisible⟩ := h
  unfold originalText
  rw [if_pos htype]
  cases hclean : env.mentionsCredential text with
  | false =>
    have hversion := version_eq_some.mpr ⟨not_removed htype, role, text, hrole, hvisible, htext,
      hclean, rfl⟩
    rw [hversion]
    rfl
  | true =>
    cases hv : r.version? env with
    | none => rfl
    | some v =>
      obtain ⟨_, _, other, _, _, hother, hnot, _⟩ := version_eq_some.mp hv
      rw [htext] at hother
      cases hother
      rw [hclean] at hnot
      cases hnot

theorem originalText_of_not_copied {newId : String}
    (h : copyDraft newId r = none) : originalText env r = none := by
  by_contra hsome
  unfold originalText at hsome
  split at hsome
  · rename_i htype
    cases hv : r.version? env with
    | none =>
      rw [hv] at hsome
      exact hsome rfl
    | some v =>
      obtain ⟨_, role, text, hrole, hvisible, htext, _, _⟩ := version_eq_some.mp hv
      have hcopied : copyDraft newId r ≠ none := by
        rw [copyDraft_eq_some.mpr ⟨role, text, ⟨htype, hrole, htext, hvisible⟩, rfl⟩]
        exact Option.some_ne_none _
      exact hcopied h
  · exact hsome rfl

structure CopyOf (env : Environment) (newId : String) (r : Record) (e : EventRow) : Prop where
  scope : e.scope = .thread newId
  same : ∃ role text, Carries r role text ∧ Carries (eventRecord e) role text
  lighter : e.payloadBytes ≤ env.payloadBytes r.payload

theorem projectPayload_message {eventType role text : String}
    (h : eventType = "message.created" ∨ eventType = "message.completed") :
    projectPayload eventType (.obj [("role", .str role), ("text", .str text)]) =
      .ok [("role", .str role), ("text", .str text)] := by
  have hsorted : Json.sortedFields [("role", .str role), ("text", .str text)] =
      [("role", .str role), ("text", .str text)] := by
    refine Json.sortedFields_eq_self ?_ (by simp [Json.sorted])
    simp only [List.pairwise_cons, List.mem_singleton, forall_eq, Json.Precedes]
    exact ⟨by decide +kernel, by simp⟩
  rcases h with h | h
  · rw [h]
    exact congrArg Except.ok hsorted
  · rw [h]
    exact congrArg Except.ok hsorted

theorem copyOf_files (hbytes : env.Concise) {newId : String}
    {draft : EventDraft} {event : EnvelopeEvent} {e : EventRow}
    (hd : copyDraft newId r = some draft) (he : Encodes draft event) (hf : Files env event e) :
    CopyOf env newId r e := by
  obtain ⟨role, text, hcarries, rfl⟩ := copyDraft_eq_some.mp hd
  have hpayload : event.payload = [("role", .str role), ("text", .str text)] :=
    Except.ok.inj (he.payload.symm.trans (projectPayload_message hcarries.1))
  have hrow : e.payload = [("role", .str role), ("text", .str text)] := hf.payload.trans hpayload
  refine ⟨?_, ⟨role, text, hcarries, ⟨?_, ?_, ?_, hcarries.2.2.2⟩⟩, ?_⟩
  · rw [hf.scope]
    exact normalizeScope_name (.thread newId) event.scope he.scope
  · change e.eventType = _ ∨ e.eventType = _
    rw [hf.eventType, he.eventType]
    exact hcarries.1
  · change Json.field? e.payload "role" = _
    rw [hrow]
    rfl
  · change Json.field? e.payload "text" = _
    rw [hrow]
    rfl
  · rw [hf.weighed, hpayload]
    exact hbytes r.payload role text hcarries.2.1 hcarries.2.2.1

variable {records : List Record}

theorem copies_show (hbytes : env.Concise) {events : List EnvelopeEvent} {rows : List EventRow}
    (hd : List.Forall₂ Encodes (records.filterMap (copyDraft newId)) events)
    (hf : List.Forall₂ (Files env) events rows) :
    rows.filterMap (fun e => originalText env (eventRecord e)) =
        records.filterMap (originalText env) ∧
      (∀ e ∈ rows, ∃ r ∈ records, CopyOf env newId r e) ∧
      rows.length ≤ records.length ∧
      bytesOf rows ≤ (records.map fun r => env.payloadBytes r.payload).sum := by
  induction records generalizing events rows with
  | nil =>
    cases hd
    cases hf
    refine ⟨rfl, ?_, le_rfl, le_rfl⟩
    intro e he
    cases he
  | cons r records ih =>
    rw [List.filterMap_cons] at hd
    rw [List.filterMap_cons, List.length_cons, List.map_cons, List.sum_cons]
    cases hcopy : copyDraft newId r with
    | none =>
      rw [hcopy] at hd
      obtain ⟨htexts, hall, hcount, hsum⟩ := ih hd hf
      rw [originalText_of_not_copied hcopy]
      refine ⟨htexts, ?_, by omega, by omega⟩
      intro e he
      obtain ⟨r', hr', hcopyOf⟩ := hall e he
      exact ⟨r', List.mem_cons_of_mem r hr', hcopyOf⟩
    | some draft =>
      rw [hcopy] at hd
      cases hd with
      | cons hencodes hdrafts =>
        cases hf with
        | @cons event e events rows hfiles hrows =>
          obtain ⟨htexts, hall, hcount, hsum⟩ := ih hdrafts hrows
          have hcopyOf := copyOf_files hbytes hcopy hencodes hfiles
          obtain ⟨role, text, hcarries, hcarries'⟩ := hcopyOf.same
          have hweight : bytesOf (e :: rows) = e.payloadBytes + bytesOf rows := by
            simp [bytesOf]
          have hlighter := hcopyOf.lighter
          refine ⟨?_, ?_, ?_, by omega⟩
          · rw [List.filterMap_cons, originalText_of_carries hcarries,
              originalText_of_carries hcarries', htexts]
          · intro e' he'
            rcases List.mem_cons.mp he' with heq | he'
            · rw [heq]
              exact ⟨r, List.mem_cons_self, hcopyOf⟩
            · obtain ⟨r', hr', hother⟩ := hall e' he'
              exact ⟨r', List.mem_cons_of_mem r hr', hother⟩
          · rw [List.length_cons]
            omega

theorem mem_of_latest {log : List Entry} {key : String × Nat}
    (h : latestRecord log key = some r) : r ∈ journaledEvents log := by
  induction log using List.reverseRecOn with
  | nil => cases h
  | append_singleton log entry ih =>
    rw [latestRecord_snoc] at h
    rw [journaledEvents_append]
    cases entry with
    | purge threadId =>
      change (if key.1 = threadId then none else latestRecord log key) = some r at h
      split at h
      · cases h
      · exact List.mem_append_left _ (ih h)
    | event r' =>
      cases hm : r'.message? with
      | none =>
        rw [recallEntry_of_none hm] at h
        exact List.mem_append_left _ (ih h)
      | some k =>
        rw [recallEntry_of_some hm] at h
        by_cases hk : key = k
        · rw [hk, Function.update_self] at h
          cases h
          exact List.mem_append_right _ List.mem_cons_self
        · rw [Function.update_of_ne hk] at h
          exact List.mem_append_left _ (ih h)

/-- All messages of the thread came with a role and a text, and none of their events is
gone. -/
structure Pristine (s : Store) (threadId : String) (rest rows : List EventRow) : Prop where
  events : eventsOf s.db (.thread threadId) = rest ++ rows
  quiet : ∀ e ∈ rest, (eventRecord e).message? = none
  carried : ∀ e ∈ rows, ∃ role text, Carries (eventRecord e) role text
  ascending : rows.Pairwise fun a b => a.scopeSequence < b.scopeSequence
  logged : ∀ r ∈ journaledEvents s.log, r.scope = .thread threadId →
    r.message? = none ∨ ∃ e ∈ rows, eventRecord e = r

section

variable {env : Environment} {s : Store} {threadId : String} {rest rows : List EventRow}

section

variable (h : Pristine s threadId rest rows)

include h

theorem Pristine.message {e : EventRow} (he : e ∈ rows) :
    e ∈ s.db.events ∧ (eventRecord e).message? = some (threadId, e.scopeSequence) := by
  have hin : e ∈ eventsOf s.db (.thread threadId) := by
    rw [h.events]
    exact List.mem_append_right rest he
  obtain ⟨hmem, hscope⟩ := mem_eventsOf.mp hin
  obtain ⟨_, _, htype, _⟩ := h.carried e he
  refine ⟨hmem, ?_⟩
  rw [message_of_thread hscope]
  exact if_pos htype

theorem Pristine.unique {e : EventRow} {sequence : Nat}
    (he : e ∈ s.db.events) (hm : (eventRecord e).message? = some (threadId, sequence)) :
    e ∈ rows ∧ e.scopeSequence = sequence := by
  have hin : e ∈ eventsOf s.db (.thread threadId) := mem_eventsOf.mpr ⟨he, scope_of_message hm⟩
  rw [h.events] at hin
  rcases List.mem_append.mp hin with hrest | hrows
  · rw [h.quiet e hrest] at hm
    cases hm
  · rw [(h.message hrows).2] at hm
    cases hm
    exact ⟨hrows, rfl⟩

theorem Pristine.eq_of_sequence {e e' : EventRow}
    (he : e ∈ rows) (he' : e' ∈ rows) (hs : e.scopeSequence = e'.scopeSequence) : e = e' := by
  by_contra hne
  have hpairs : rows.Pairwise fun a b => a.scopeSequence ≠ b.scopeSequence :=
    h.ascending.imp fun hlt => ne_of_lt hlt
  have hsymm : Std.Symm fun a b : EventRow => a.scopeSequence ≠ b.scopeSequence :=
    ⟨fun _ _ => Ne.symm⟩
  exact hpairs.forall he he' hne hs

theorem Pristine.latest (hc : Conversational env s) {e : EventRow} (he : e ∈ rows) :
    latestRecord s.log (threadId, e.scopeSequence) = some (eventRecord e) := by
  obtain ⟨hmem, hmessage⟩ := h.message he
  apply latest_of_retained hc hmem hmessage
  intro e' he' hm'
  obtain ⟨hin, hsequence⟩ := h.unique he' hm'
  rw [h.eq_of_sequence hin he hsequence]

/-- The view shows each copy as it came. -/
theorem Pristine.shown (hc : Conversational env s)
    (jsonText : Json → String) {e : EventRow} (he : e ∈ rows) :
    shownAt env jsonText s.db threadId e.scopeSequence = originalText env (eventRecord e) := by
  obtain ⟨hmem, hmessage⟩ := h.message he
  obtain ⟨role, text, hcarries⟩ := h.carried e he
  have hcandidate : ∃ c ∈ candidates jsonText s.db threadId, c.sequence = e.scopeSequence := by
    obtain ⟨c, hcand, hsequence⟩ : ∃ c, retainedCandidate jsonText e = some c ∧
        c.sequence = e.scopeSequence := exists_retainedCandidate hmessage
    exact ⟨c, mem_candidates.mpr (.inr ⟨e, mem_eventsOf.mpr ⟨hmem, scope_of_message hmessage⟩,
      hcand⟩), hsequence⟩
  have hread : ¬ MisreadLatest env jsonText s.db threadId e.scopeSequence := by
    rintro ⟨e', he', hm', ⟨_, _, value, hvalue, hcontainer, _⟩, _⟩
    obtain ⟨hin, hsequence⟩ := h.unique he' hm'
    rw [h.eq_of_sequence hin he hsequence, hcarries.2.2.1] at hvalue
    cases hvalue
    cases hcontainer
  have hversion := (visibleRow_spec hc hcandidate).1 hread
  rw [viewOf_eq_latest, h.latest hc he] at hversion
  change _ = (eventRecord e).version? env at hversion
  unfold originalText
  rw [if_pos hcarries.1, ← hversion, Option.map_map]
  rfl

theorem Pristine.conversation (hc : Conversational env s) (jsonText : Json → String) :
    conversation env jsonText s.db threadId =
      rows.filterMap fun e => originalText env (eventRecord e) := by
  have hcover : ∀ row ∈ visible env jsonText s.db threadId,
      row.sequence ∈ rows.map EventRow.scopeSequence := by
    intro row hrow
    obtain ⟨⟨c, hcand, hsequence⟩, _⟩ := visibleRow_sequence (mem_visible.mp hrow)
    rw [← hsequence]
    rcases mem_candidates.mp hcand with ⟨n, indexed, hget, rfl⟩ | ⟨e, he, hretained⟩
    · have hview := hc.indexed.shows _ indexed hget
      rw [viewOf_eq_latest] at hview
      obtain ⟨r, hlatest, _⟩ := Option.bind_eq_some_iff.mp hview
      have hm := message_of_latest hlatest
      rcases h.logged r (mem_of_latest hlatest) (scope_of_message hm) with hnone | ⟨e, he, heq⟩
      · rw [hnone] at hm
        cases hm
      · rw [← heq, (h.message he).2] at hm
        cases hm
        exact List.mem_map_of_mem he
    · obtain ⟨hin, hscope⟩ := mem_eventsOf.mp he
      obtain ⟨hm, _⟩ := retainedCandidate_spec hscope hretained
      obtain ⟨hrows, heq⟩ := h.unique hin hm
      rw [← heq]
      exact List.mem_map_of_mem hrows
  have hsorted : (rows.map EventRow.scopeSequence).Pairwise (· < ·) :=
    List.pairwise_map.mpr h.ascending
  rw [conversation_eq hsorted hcover, List.filterMap_map]
  exact List.filterMap_congr fun e he => h.shown hc jsonText he

end

end

/-! ## A fork that succeeds -/

section

variable {env : Environment} {f : Fork} {draws : CommitDraws} {records : List Record}
  {fingerprint : String} {envelope : Envelope}

/-- The parts of a fork that succeeds: `u` is the store it commits to. -/
structure ForkParts (env : Environment) (f : Fork) (draws : CommitDraws) (records : List Record)
    (fingerprint : String) (envelope : Envelope) (u t : Store)
    (results : List (Record × Bool)) : Prop where
  checked : checkOperation env (f.operation records) draws.now = .ok (fingerprint, envelope)
  finalized : finalize env draws.isFull (insertPending u.db fingerprint envelope) envelope =
    .ok (results, t.db)
  logged : t.log = u.log ++ results.filterMap fun r => if r.2 then some (.event r.1) else none
  performed : ∃ changes : List Change, t = changes.foldl (Change.perform env) u

theorem commit_eq_ok {α : Type} {transaction : Database → Except JournalError (α × Database)}
    {entries : α → List Entry} {s t : Store} {a : α} :
    Store.commit transaction entries s = (.ok a, t) ↔
      transaction s.db = .ok (a, t.db) ∧ t.log = s.log ++ entries a := by
  unfold Store.commit
  obtain ⟨db, log⟩ := t
  cases h : transaction s.db with
  | error e => simp
  | ok r =>
    obtain ⟨b, db'⟩ := r
    constructor
    · intro heq
      cases heq
      exact ⟨rfl, rfl⟩
    · rintro ⟨heq, hlog⟩
      cases heq
      change log = _ at hlog
      rw [hlog]

theorem cloneThreadForFork_ok {s t : Store} {later : List Change}
    (hfresh : f.Fresh (later.foldl (Change.perform env) s))
    (h : Store.cloneThreadForFork env f later draws s = (.ok (), t)) :
    ∃ records fingerprint envelope results,
      replayThread s.db f.sourceId none = .ok records ∧
        ForkParts env f draws records fingerprint envelope (later.foldl (Change.perform env) s) t
          results := by
  unfold Store.cloneThreadForFork at h
  obtain ⟨db, _, hdb, h⟩ := bind_eq_ok.mp h
  cases hdb
  obtain ⟨records, _, hlift, h⟩ := bind_eq_ok.mp h
  obtain ⟨hrecords, hsame⟩ := Prod.mk.inj hlift
  subst hsame
  obtain ⟨_, u, hu, h⟩ := bind_eq_ok.mp h
  obtain ⟨_, hu⟩ := Prod.mk.inj hu
  obtain ⟨⟨fingerprint, envelope⟩, _, hlift', h⟩ := bind_eq_ok.mp h
  obtain ⟨hchecked, hsame⟩ := Prod.mk.inj hlift'
  subst hsame
  obtain ⟨preparation, v, hprepare, h⟩ := bind_eq_ok.mp h
  obtain ⟨results, w, hfinalize, h⟩ := bind_eq_ok.mp h
  cases h
  subst hu
  have hid : envelope.operationId = f.operationId := (checkOperation_spec hchecked).2.1
  have hnone := hfresh.operation
  rw [← hid] at hnone
  obtain ⟨hprepared, hlog⟩ := commit_eq_ok.mp hprepare
  rw [List.append_nil] at hlog
  have hpending : v.db = insertPending (later.foldl (Change.perform env) s).db fingerprint
      envelope := by
    rcases prepare_spec hprepared with ⟨row, hrow, _⟩ | ⟨_, _, _, hdb⟩
    · rw [hnone] at hrow
      cases hrow
    · exact hdb
  obtain ⟨hfinal, hlogged⟩ := commit_eq_ok.mp hfinalize
  have hrow : v.db.outbox.get? envelope.operationId =
      some ⟨fingerprint, some envelope, !envelope.events.isEmpty⟩ := by
    rw [hpending]
    exact Dict.get?_set_self _ _ _
  unfold pendingEnvelope at hfinal
  rw [hrow] at hfinal
  refine ⟨records, fingerprint, envelope, results, hrecords, hchecked, ?_, ?_, ?_⟩
  · rw [← hpending]
    exact hfinal
  · rw [← hlog]
    exact hlogged
  · refine ⟨[.prepare fingerprint envelope (draws.isFull envelope.operationId),
      .finalize envelope.operationId draws.isFull], ?_⟩
    have hv := congrArg Prod.snd hprepare
    have hw := congrArg Prod.snd hfinalize
    change t = ((Store.finalize env envelope.operationId draws.isFull)
      (Store.commit _ _ (later.foldl (Change.perform env) s)).2).2
    rw [hv]
    exact hw.symm

theorem checkOperation_encodes {operation : Operation} {now : Nat → String}
    (h : checkOperation env operation now = .ok (fingerprint, envelope)) :
    List.Forall₂ Encodes operation.events envelope.events := by
  obtain ⟨_, _, _, hevents⟩ := checkOperation_eq_ok h
  exact encodeDrafts_encodes hevents

theorem exists_of_forall₂ {α β : Type} {R : α → β → Prop} {xs : List α} {ys : List β}
    (h : List.Forall₂ R xs ys) {y : β} (hy : y ∈ ys) : ∃ x ∈ xs, R x y := by
  induction h with
  | nil => cases hy
  | cons hfirst _ ih =>
    rcases List.mem_cons.mp hy with heq | hy
    · rw [heq]
      exact ⟨_, List.mem_cons_self, hfirst⟩
    · obtain ⟨x, hx, hR⟩ := ih hy
      exact ⟨x, List.mem_cons_of_mem _ hx, hR⟩

theorem operation_scope {draft : EventDraft} (hd : draft ∈ (f.operation records).events)
    {event : EnvelopeEvent} (he : Encodes draft event) : event.scope = .thread f.newId := by
  have hnew : draft.scope = "thread" ∧ draft.threadId = some f.newId := by
    rcases List.mem_append.mp hd with hd | hd
    · rcases List.mem_cons.mp hd with heq | hd
      · rw [heq]
        exact ⟨rfl, rfl⟩
      · rw [List.mem_singleton.mp hd]
        exact ⟨rfl, rfl⟩
    · obtain ⟨r, _, hcopy⟩ := List.mem_filterMap.mp hd
      obtain ⟨_, _, _, rfl⟩ := copyDraft_eq_some.mp hcopy
      exact ⟨rfl, rfl⟩
  have hs := he.scope
  rw [hnew.1, hnew.2] at hs
  exact normalizeScope_name (.thread f.newId) event.scope hs

theorem opening_quiet {draft : EventDraft} (hd : draft ∈ f.opening) {event : EnvelopeEvent}
    {e : EventRow} (he : Encodes draft event) (hf : Files env event e) :
    (eventRecord e).message? = none := by
  have htype : e.eventType = "thread.created" ∨ e.eventType = "thread.updated" := by
    rw [hf.eventType, he.eventType]
    unfold Fork.opening at hd
    rcases List.mem_cons.mp hd with heq | hd
    · rw [heq]
      exact .inl rfl
    · rw [List.mem_singleton.mp hd]
      exact .inr rfl
  have hscope : e.scope = .thread f.newId := by
    have hin : draft ∈ (f.operation []).events := List.mem_append_left _ hd
    rw [hf.scope]
    exact operation_scope hin he
  rw [message_of_thread hscope]
  rcases htype with htype | htype
  · rw [htype]
    rfl
  · rw [htype]
    rfl

theorem ForkParts.pristine {u t : Store} {results : List (Record × Bool)}
    (hp : ForkParts env f draws records fingerprint envelope u t results) (hs : Sequenced u)
    (hbytes : env.Concise) (hfresh : f.Fresh u)
    (hroom : HasRoom env (.thread f.newId) records.length
      (records.map fun r => env.payloadBytes r.payload).sum) :
    ∃ rest rows, Pristine t f.newId rest rows ∧
      (rows.filterMap fun e => originalText env (eventRecord e)) =
        records.filterMap (originalText env) := by
  have hencodes := checkOperation_encodes hp.checked
  have hscope : ∀ event ∈ envelope.events, event.scope = .thread f.newId := by
    intro event he
    obtain ⟨draft, hd, hencode⟩ := exists_of_forall₂ hencodes he
    exact operation_scope hd hencode
  have hprojected : ∀ event ∈ envelope.events, event.Projected := by
    intro event he
    obtain ⟨draft, _, hencode⟩ := exists_of_forall₂ hencodes he
    exact hencode.projected
  obtain ⟨hkeyed, hid, _⟩ := checkOperation_spec hp.checked
  have hfree : ∀ event ∈ envelope.events,
      (insertPending u.db fingerprint envelope).ledger.get? event.operationKey = none := by
    intro event he
    obtain ⟨i, hkey⟩ := hkeyed.mem he
    rw [hkey, hid]
    exact hfresh.keys i
  -- the opening and the copies
  have hopening : List.Forall₂ Encodes f.opening (envelope.events.take 2) :=
    List.forall₂_take 2 hencodes
  have hcopies : List.Forall₂ Encodes (records.filterMap (copyDraft f.newId))
      (envelope.events.drop 2) := List.forall₂_drop 2 hencodes
  have hsplit := List.take_append_drop 2 envelope.events
  have hnodup := hkeyed.nodup
  rw [← hsplit] at hscope hprojected hfree hnodup
  rw [List.map_append] at hnodup
  obtain ⟨hnodup₁, hnodup₂, hdisjoint⟩ := List.nodup_append.mp hnodup
  obtain ⟨appended, _, happended, hpruned⟩ := finalize_spec hp.finalized
  rw [← hsplit] at happended
  obtain ⟨opened, mid, copied, hfirst, hsecond, hresults⟩ := appendEvents_append happended
  have hprepare : Step env True u ⟨insertPending u.db fingerprint envelope, u.log⟩ :=
    Step.metadata u.db.ledger _ u.db.tombstones u.db.legacyImports
  have hpending := hprepare.sequenced hs
  have hopened : Steps env True ⟨insertPending u.db fingerprint envelope, u.log⟩
      ⟨mid, u.log ++ opened.filterMap fun r => if r.2 then some (.event r.1) else none⟩ :=
    appendEvents_steps hfirst
  have hmid := hopened.keeps (fun _ _ hi step => step.sequenced hi) hpending
  obtain ⟨quiet, hquiet⟩ := appendEvents_journaled hpending
    (fun e he => hscope e (List.mem_append_left _ he))
    (fun e he => hprojected e (List.mem_append_left _ he))
    (fun e he => hfree e (List.mem_append_left _ he)) hnodup₁ hfirst
  obtain ⟨rows, hrows⟩ := appendEvents_journaled hmid
    (fun e he => hscope e (List.mem_append_right _ he))
    (fun e he => hprojected e (List.mem_append_right _ he))
    (fun e he => hquiet.free e.operationKey
      (fun first hf heq => hdisjoint _ (List.mem_map_of_mem hf) _ (List.mem_map_of_mem he) heq.symm)
      (hfree e (List.mem_append_right _ he))) hnodup₂ hsecond
  obtain ⟨htexts, hall, hcount, hsum⟩ := copies_show hbytes hcopies hrows.files
  obtain ⟨rest, hrest, hkept⟩ := hrows.spared (eventsOf mid (.thread f.newId)) []
    (List.append_nil _).symm (hroom.of_le hcount hsum)
  have hsame : SameEvents appended t.db := by
    have hmark := prune_sameEvents hpruned
    exact ⟨hmark.events, hmark.last, hmark.states⟩
  have hunspoken : ∀ e ∈ quiet, (eventRecord e).message? = none := by
    intro e he
    obtain ⟨event, hevent, hfiles⟩ := exists_of_forall₂ hquiet.files he
    obtain ⟨draft, hd, hencode⟩ := exists_of_forall₂ hopening hevent
    exact opening_quiet hd hencode hfiles
  refine ⟨rest, rows, ⟨?_, ?_, ?_, hrows.ascending, ?_⟩, htexts⟩
  · rw [hsame.eventsOf]
    exact hkept
  · intro e he
    obtain ⟨hin, hthread⟩ := mem_eventsOf.mp (hrest.mem he)
    rcases hquiet.old e hin with hold | hnew
    · exact absurd hthread (hfresh.thread _ (hs.logged e hold))
    · exact hunspoken e hnew
  · intro e he
    obtain ⟨r, _, hcopyOf⟩ := hall e he
    obtain ⟨role, text, _, hcarries⟩ := hcopyOf.same
    exact ⟨role, text, hcarries⟩
  · intro r hr hthread
    rw [hp.logged, journaledEvents_append] at hr
    rcases List.mem_append.mp hr with hold | hnew
    · exact absurd hthread (hfresh.thread r hold)
    obtain ⟨⟨record, inserted⟩, hin, heq⟩ :=
      List.mem_filterMap.mp (mem_journaledEvents.mp hnew)
    have hrecord : record = r := by
      cases inserted with
      | true =>
        cases heq
        rfl
      | false => cases heq
    rw [hresults, hquiet.results, hrows.results] at hin
    rcases List.mem_append.mp hin with hin | hin
    · obtain ⟨e, he, hpair⟩ := List.mem_map.mp hin
      cases hpair
      rw [← hrecord]
      exact .inl (hunspoken e he)
    · obtain ⟨e, he, hpair⟩ := List.mem_map.mp hin
      cases hpair
      exact .inr ⟨e, he, hrecord⟩

end

def Weighed (env : Environment) (s : Store) : Prop :=
  ∀ e ∈ s.db.events, e.payloadBytes = env.payloadBytes e.payload

theorem Step.weighed {K : Prop} {s t : Store} (ha : Accounted s.db)
    (hi : Weighed env s) (h : Step env K s t) : Weighed env t := by
  intro e he
  cases h with
  | append appended =>
    obtain ⟨c, hc, _, hold, _⟩ := append_spares ha appended
    rcases hold e he with hin | hnew
    · exact hi e hin
    · rw [hnew]
      exact (checkAppend_checked hc).bytes.1
  | metadata => exact hi e he
  | compact allowed compacted =>
    obtain ⟨scope, _, hsame, _⟩ := compact_spec compacted
    have hin : e ∈ (lowered _ scope _ _ _ _).events := hsame.events ▸ he
    exact hi e (mem_lowered.mp hin).1
  | purge purged =>
    obtain ⟨snapshot, hsame, _⟩ := purgeThread_spec purged
    exact hi e ((sheds_purged _ _ _ snapshot).same hsame |>.sublist.mem he)
  | recount => exact hi e he

theorem Store.run_weighed (env : Environment) (changes : List Change) :
    Weighed env (Store.run env changes) := by
  have hboth := Store.run_invariant (I := fun s => Sequenced s ∧ Weighed env s)
    ⟨sequenced_initial, fun e he => by cases he⟩
    (fun _ _ hi h => ⟨h.sequenced hi.1, h.weighed hi.1.accounted hi.2⟩) changes
  exact hboth.2

theorem replayThread_all {db : Database} {threadId : String}
    (h : replayThread db threadId none = .ok records) :
    records = (sequenceRows db (.thread threadId) 0).map eventRecord := by
  unfold replayThread at h
  obtain ⟨scope, hscope, h⟩ := except_bind_eq_ok.mp h
  obtain ⟨_, h⟩ := refuse_bind_eq_ok.mp h
  obtain ⟨_, h⟩ := refuse_bind_eq_ok.mp h
  obtain ⟨_, _, h⟩ := except_bind_eq_ok.mp h
  cases h
  rw [normalizeScope_name (.thread threadId) scope hscope]
  rfl

theorem hasRoom_of_source {s : Store} (hs : Sequenced s)
    (hw : Weighed env s) {sourceId newId : String} (hl : WithinLimits env s.db (.thread sourceId))
    (hr : records = (sequenceRows s.db (.thread sourceId) 0).map eventRecord) :
    HasRoom env (.thread newId) records.length
      (records.map fun r => env.payloadBytes r.payload).sum := by
  have hall : (eventsOf s.db (.thread sourceId)).filter (fun e => 0 < e.scopeSequence) =
      eventsOf s.db (.thread sourceId) := by
    refine List.filter_eq_self.mpr fun e he => ?_
    have hpos : 0 < e.scopeSequence := (hs.sequences _ (hs.logged e (mem_eventsOf.mp he).1)).1
    simpa using hpos
  have hperm :
    (sequenceRows s.db (.thread sourceId) 0).Perm (eventsOf s.db (.thread sourceId)) := by
    unfold sequenceRows
    rw [hall]
    exact List.perm_insertionSort _ _
  have hcount : records.length = (eventsOf s.db (.thread sourceId)).length := by
    rw [hr, List.length_map]
    exact hperm.length_eq
  have hsum : (records.map fun r => env.payloadBytes r.payload).sum =
      bytesOf (eventsOf s.db (.thread sourceId)) := by
    have hweights : (sequenceRows s.db (.thread sourceId) 0).map
        (fun e => env.payloadBytes (eventRecord e).payload) =
          (sequenceRows s.db (.thread sourceId) 0).map EventRow.payloadBytes :=
      List.map_congr_left fun e he =>
        (hw e (mem_eventsOf.mp (mem_sequenceRows.mp he).1).1).symm
    rw [hr, List.map_map]
    unfold bytesOf
    rw [← (hperm.map EventRow.payloadBytes).sum_nat, ← hweights]
    rfl
  unfold HasRoom
  unfold WithinLimits at hl
  rw [hcount, hsum]
  rcases hl with hfits | hone
  · exact .inl hfits
  · exact .inr (le_of_eq hone)

/-! ## What a fork shows -/

def ShowsSource (env : Environment) (jsonText : Json → String) (f : Fork) (s t : Store) : Prop :=
  conversation env jsonText t.db f.newId = conversation env jsonText s.db f.sourceId

instance (env : Environment) (jsonText : Json → String) (f : Fork) (s t : Store) :
    Decidable (ShowsSource env jsonText f s t) := inferInstanceAs (Decidable (_ = _))

section

variable {env : Environment} {jsonText : Json → String} {s : Store} {threadId : String}

theorem exists_sequences (hs : Sequenced s) (env : Environment) (jsonText : Json → String)
    (threadId : String) :
    ∃ sequences : List Nat,
      conversation env jsonText s.db threadId =
          sequences.filterMap (shownAt env jsonText s.db threadId) ∧
        broughtIn env s.db threadId = sequences.filterMap (originalAt env s.db threadId) ∧
        ∀ n, n ∉ sequences → shownAt env jsonText s.db threadId n = none ∧
          originalAt env s.db threadId n = none := by
  have hbound : ∃ bound, (∀ row ∈ visible env jsonText s.db threadId, row.sequence < bound) ∧
      ∀ e ∈ sequenceRows s.db (.thread threadId) 0, e.scopeSequence < bound := by
    refine ⟨((visible env jsonText s.db threadId).map ConversationRow.sequence).foldl max 0 +
      ((sequenceRows s.db (.thread threadId) 0).map EventRow.scopeSequence).foldl max 0 + 1, ?_, ?_⟩
    · intro row hrow
      have hle := (le_foldl_max _ 0).2 _ (List.mem_map_of_mem (f := ConversationRow.sequence) hrow)
      omega
    · intro e he
      have hle := (le_foldl_max _ 0).2 _ (List.mem_map_of_mem (f := EventRow.scopeSequence) he)
      omega
  obtain ⟨bound, hvisible, hrows⟩ := hbound
  refine ⟨List.range bound, ?_, ?_, ?_⟩
  · exact conversation_eq List.pairwise_lt_range
      fun row hrow => List.mem_range.mpr (hvisible row hrow)
  · exact originals_eq hs List.pairwise_lt_range fun e he => List.mem_range.mpr (hrows e he)
  · intro n hn
    have hge : bound ≤ n := by simpa using hn
    constructor
    · unfold shownAt
      cases hrow : visibleRow env (versionsOf (candidates jsonText s.db threadId) n) with
      | none => rfl
      | some row =>
        have hsequence := (visibleRow_sequence hrow).2
        have hlt := hvisible row (mem_visible.mpr (by rw [hsequence]; exact hrow))
        omega
    · unfold originalAt
      rw [Option.bind_eq_none_iff]
      intro e he
      have hsequence : e.scopeSequence = n := by simpa using List.find?_some he
      have hlt := hrows e (List.mem_of_find?_eq_some he)
      omega

theorem Unedited.shows (hs : Sequenced s) (h : Unedited env jsonText s.db threadId) :
    conversation env jsonText s.db threadId = broughtIn env s.db threadId := by
  obtain ⟨sequences, hshown, horiginal, _⟩ := exists_sequences hs env jsonText threadId
  rw [hshown, horiginal]
  exact List.filterMap_congr fun n _ => h n

theorem ShownBefore.unedited (hs : Sequenced s) (h : ShownBefore env jsonText s.db threadId)
    (he : conversation env jsonText s.db threadId = broughtIn env s.db threadId) :
    Unedited env jsonText s.db threadId := by
  obtain ⟨sequences, hshown, horiginal, hother⟩ := exists_sequences hs env jsonText threadId
  rw [hshown, horiginal] at he
  have hall := Keyed.eqOn_of_filterMap_eq (fun n _ => h n) he
  intro n
  by_cases hn : n ∈ sequences
  · exact hall n hn
  · obtain ⟨hnone, hnone'⟩ := hother n hn
    rw [hnone, hnone']

end

theorem ForkParts.conversation {f : Fork} {draws : CommitDraws}
    {fingerprint : String} {envelope : Envelope} {u t : Store} {results : List (Record × Bool)}
    (hp : ForkParts env f draws records fingerprint envelope u t results)
    (hs : Sequenced u) (hc : Conversational env t) (hbytes : env.Concise) (hfresh : f.Fresh u)
    (hroom : HasRoom env (.thread f.newId) records.length
      (records.map fun r => env.payloadBytes r.payload).sum) (jsonText : Json → String) :
    conversation env jsonText t.db f.newId = records.filterMap (originalText env) := by
  obtain ⟨rest, rows, hpristine, htexts⟩ := hp.pristine hs hbytes hfresh hroom
  rw [hpristine.conversation hc jsonText, htexts]

/-- A fork that cannot read its source changes nothing. One that succeeds shows what the
source shows just if the source shows the messages its events brought in: if no edit or
removal and no loss changed what is shown of a message, and, where only messages are shown
that were shown when they came in, only then. -/
theorem Store.run_fork (env : Environment) (jsonText : Json → String) (hbytes : env.Concise)
    (changes later : List Change) (f : Fork) (draws : CommitDraws) (t : Store) :
    (∀ e, replayThread (Store.run env changes).db f.sourceId none = .error e →
        Store.cloneThreadForFork env f later draws (Store.run env changes) =
          (.error e, Store.run env changes)) ∧
      (f.Fresh (Store.run env (changes ++ later)) →
        Store.cloneThreadForFork env f later draws (Store.run env changes) = (.ok (), t) →
          (ShowsSource env jsonText f (Store.run env changes) t ↔
              conversation env jsonText (Store.run env changes).db f.sourceId =
                broughtIn env (Store.run env changes).db f.sourceId) ∧
            (Unedited env jsonText (Store.run env changes).db f.sourceId →
              ShowsSource env jsonText f (Store.run env changes) t) ∧
            (ShownBefore env jsonText (Store.run env changes).db f.sourceId →
              ShowsSource env jsonText f (Store.run env changes) t →
                Unedited env jsonText (Store.run env changes).db f.sourceId)) := by
  have hs := Store.run_sequenced env changes
  constructor
  · intro e he
    unfold Store.cloneThreadForFork
    rw [bind_read_run, bind_run_of_error (s := Store.run env changes)
      (t := Store.run env changes) (e := e)]
    rw [lift_run, he]
  · intro hfresh h
    rw [Store.run_append] at hfresh
    obtain ⟨records, fingerprint, envelope, results, hreplay, hp⟩ :=
      cloneThreadForFork_ok hfresh h
    have hrecords := replayThread_all hreplay
    have hroom : HasRoom env (.thread f.newId) records.length
        (records.map fun r => env.payloadBytes r.payload).sum :=
      hasRoom_of_source hs (Store.run_weighed env changes)
        ((Store.run_retention env changes).1.limited _) hrecords
    have hu := Store.run_sequenced env (changes ++ later)
    rw [Store.run_append] at hu
    obtain ⟨more, hmore⟩ := hp.performed
    have hc := Store.run_conversational env (changes ++ later ++ more)
    rw [Store.run_append, Store.run_append, ← hmore] at hc
    have hcopied := hp.conversation hu hc hbytes hfresh hroom jsonText
    have hiff : ShowsSource env jsonText f (Store.run env changes) t ↔
        conversation env jsonText (Store.run env changes).db f.sourceId =
          broughtIn env (Store.run env changes).db f.sourceId := by
      unfold ShowsSource broughtIn
      rw [hcopied, hrecords]
      exact eq_comm
    refine ⟨hiff, ?_, ?_⟩
    · intro hunedited
      exact hiff.mpr (hunedited.shows hs)
    · intro hbefore hshows
      exact hbefore.unedited hs (hiff.mp hshows)

theorem sampleEnvironment_concise : sampleEnvironment.Concise := by
  intro payload role text hrole htext
  have hlength : 2 ≤ payload.length := by
    rcases payload with _ | ⟨⟨key, value⟩, _ | ⟨next, rest⟩⟩
    · cases hrole
    · have hkey : key = "role" := by
        by_contra hne
        simp [Json.field?, hne] at hrole
      rw [hkey] at htext
      simp [Json.field?] at htext
    · exact Nat.le_add_left 2 rest.length
  change 2 + 16 * 2 ≤ 2 + 16 * payload.length
  omega

/-- An event of the thread `t`. -/
def sampleEvent (key eventType : String) (fields : List (String × Json)) : Change :=
  .append
    { operationKey := key
      scope := "thread"
      threadId := some "t"
      eventType := eventType
      payload := .obj fields
      timestamp := some "2030-01-01T00:00:00Z"
      operationId := none
      eventId := some key
      scopeSequence := none }
    ⟨"", "", false⟩

def sampleExchange : List Change :=
  [sampleEvent "a" "message.created" [("role", .str "user"), ("text", .str "hello")],
    sampleEvent "b" "message.completed" [("role", .str "assistant"), ("text", .str "hi")]]

def cancelledPrompt : List Change :=
  [sampleEvent "a" "message.created" [("role", .str "user"), ("text", .str "hello")],
    sampleEvent "b" "message.removed" [("message_sequence", .int 1)]]

def sampleFork : Fork := ⟨"t", "u", "fork", ⟨"threads/u.json", 1, []⟩, .obj []⟩

def sampleDraws : CommitDraws := ⟨fun _ => "2030-01-01T00:00:00Z", fun _ => false⟩

theorem Store.run_fork_exchange :
    (Store.cloneThreadForFork sampleEnvironment sampleFork [] sampleDraws
        (Store.run sampleEnvironment sampleExchange)).1 = .ok () ∧
      ∀ t, Store.cloneThreadForFork sampleEnvironment sampleFork [] sampleDraws
          (Store.run sampleEnvironment sampleExchange) = (.ok (), t) →
        ShowsSource sampleEnvironment (fun _ => "") sampleFork
          (Store.run sampleEnvironment sampleExchange) t := by
  have hfresh : sampleFork.Fresh (Store.run sampleEnvironment (sampleExchange ++ [])) := by
    have hkeys : ∀ e ∈ (Store.run sampleEnvironment (sampleExchange ++ [])).db.ledger.entries,
        isOutboxKey e.1 = false := by decide +kernel
    refine ⟨by decide +kernel, by decide +kernel, ?_⟩
    intro i
    cases hrow : (Store.run sampleEnvironment (sampleExchange ++ [])).db.ledger.get?
        (outboxKey sampleFork.operationId i) with
    | none => rfl
    | some row =>
      have hkey := hkeys _ ((Dict.get?_eq_some_iff _ _ row).mp hrow)
      rw [isOutboxKey_outboxKey] at hkey
      cases hkey
  refine ⟨by decide +kernel, ?_⟩
  intro t h
  exact ((Store.run_fork sampleEnvironment (fun _ => "") sampleEnvironment_concise sampleExchange []
    sampleFork sampleDraws t).2 hfresh h).1.mpr (by decide +kernel)

/-- The fork shows the cancelled prompt, which the source shows no more. -/
theorem fork_cancelledPrompt :
    (Store.cloneThreadForFork sampleEnvironment sampleFork [] sampleDraws
        (Store.run sampleEnvironment cancelledPrompt)).1 = .ok () ∧
      ¬ ShowsSource sampleEnvironment (fun _ => "") sampleFork
        (Store.run sampleEnvironment cancelledPrompt)
        (Store.cloneThreadForFork sampleEnvironment sampleFork [] sampleDraws
          (Store.run sampleEnvironment cancelledPrompt)).2 := by
  decide +kernel

end CodexBridge.Journal
