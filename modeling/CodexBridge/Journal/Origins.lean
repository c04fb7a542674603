import CodexBridge.Journal.Changes

/-! # Where the events come from

Every event of the journal was written for a request that passed the checks: of a caller, of a
durable operation, or of a line of a legacy log.
-/

namespace CodexBridge.Journal

open Effect

/-- Every append that the change makes or prepares satisfies `Q`. -/
def Change.Requests (Q : AppendRequest → Draws → Prop) : Change → Prop
  | .append request draws => Q request draws
  | .prepare _ envelope _ =>
    ∀ e ∈ envelope.events, ∀ full, Q (eventRequest envelope.operationId e) ⟨"", "", full⟩
  | .importLegacy reader threadId lines =>
    ∀ line ∈ lines, ∀ record, readLegacy reader threadId line.1 = .ok record →
      Q (legacyRequest threadId record) line.2
  | .finalize .. | .compact .. | .purge _ | .reopen => True

theorem Change.Requests.and {Q R : AppendRequest → Draws → Prop} {change : Change}
    (hq : change.Requests Q) (hr : change.Requests R) :
    change.Requests fun request draws => Q request draws ∧ R request draws := by
  cases change with
  | append request draws => exact ⟨hq, hr⟩
  | prepare fingerprint envelope full => exact fun e he full => ⟨hq e he full, hr e he full⟩
  | importLegacy reader threadId lines =>
    exact fun line hl record hrecord => ⟨hq line hl record hrecord, hr line hl record hrecord⟩
  | finalize operationId isFull | compact scope through snapshot threadId | purge threadId
  | reopen => trivial

/-- The row is what an append that satisfies `Q` put there. -/
def EventRow.Stems (env : Environment) (Q : AppendRequest → Draws → Prop) (e : EventRow) : Prop :=
  ∃ request draws c, Q request draws ∧ checkAppend env request draws = .ok c ∧
    eventRecord e = ⟨e.cursor, c.eventId, c.scope, c.eventType, c.payload, c.timestamp,
      c.operationId, e.scopeSequence⟩

/-- Each event stems from such an append, and the operations that wait make such appends. -/
structure Rooted (env : Environment) (Q : AppendRequest → Draws → Prop) (db : Database) :
    Prop where
  events : ∀ e ∈ db.events, 0 < e.cursor ∧ e.Stems env Q
  pending : ∀ id row, db.outbox.get? id = some row → ∀ envelope ∈ row.pending,
    ∀ e ∈ envelope.events, ∀ full, Q (eventRequest envelope.operationId e) ⟨"", "", full⟩

/-! ## What a transaction adds -/

section

variable {env : Environment} {A : AppendRequest → Prop} {db db' : Database}
  {added : List Insertion}

theorem Edits.inserted (h : Edits env A db added db') :
    ∀ e ∈ db'.events, e ∈ db.events ∨ 0 < e.cursor ∧ ∃ i ∈ added, eventRecord e = i.record := by
  refine h.relates (R := fun db added db' => ∀ e ∈ db'.events,
    e ∈ db.events ∨ 0 < e.cursor ∧ ∃ i ∈ added, eventRecord e = i.record) ?_ ?_ ?_
  · exact fun _ e he => .inl he
  · intro _ a _ b _ ha hb e he
    rcases hb e he with hmid | ⟨hcursor, i, hi, hrecord⟩
    · rcases ha e hmid with hold | ⟨hcursor, i, hi, hrecord⟩
      · exact .inl hold
      · exact .inr ⟨hcursor, i, List.mem_append_left _ hi, hrecord⟩
    · exact .inr ⟨hcursor, i, List.mem_append_right _ hi, hrecord⟩
  · intro _ _ _ edit e he
    cases edit with
    | insert =>
      rcases List.mem_append.mp he with hold | hnew
      · exact .inl hold
      · rw [List.mem_singleton.mp hnew]
        exact .inr ⟨Nat.succ_pos _, _, List.mem_singleton_self _, rfl⟩
    | project => exact .inl he
    | evict => exact .inl (List.mem_of_mem_filter he)
    | prune pruned =>
      obtain ⟨tombstones, legacy, rfl, _⟩ := prune_spec pruned
      exact .inl he

theorem Edits.outbox (h : Edits env A db added db') :
    ∀ id row, db'.outbox.get? id = some row → db.outbox.get? id = some row := by
  refine h.relates (R := fun db _ db' => ∀ id row, db'.outbox.get? id = some row →
    db.outbox.get? id = some row) ?_ ?_ ?_
  · exact fun _ _ _ hrow => hrow
  · exact fun _ _ _ _ _ ha hb id row hrow => ha id row (hb id row hrow)
  · intro _ _ _ edit id row hrow
    cases edit with
    | insert => exact hrow
    | project => exact hrow
    | evict => exact hrow
    | prune pruned =>
      obtain ⟨tombstones, legacy, rfl, _⟩ := prune_spec pruned
      exact ((Dict.get?_filter_eq_some_iff _ _ _ _).mp hrow).1

end

/-! ## Calls -/

section

variable {env : Environment} {Q : AppendRequest → Draws → Prop} {db db' : Database}

theorem Rooted.edits {A : AppendRequest → Prop} (h : Rooted env Q db)
    (he : Edits env A db [] db') : Rooted env Q db' where
  events := by
    intro e hmem
    rcases he.inserted e hmem with hold | ⟨_, i, hi, _⟩
    · exact h.events e hold
    · cases hi
  pending := fun id row hrow => h.pending id row (he.outbox id row hrow)

theorem Rooted.append (h : Rooted env Q db) {request : AppendRequest} {draws : Draws}
    {record : Record} {inserted : Bool} (hq : Q request draws)
    (ha : append env db request draws = .ok (record, inserted, db')) : Rooted env Q db' := by
  obtain ⟨c, hc, ⟨_, _, _, _, _, rfl⟩ | ⟨_, rfl, _, he⟩⟩ :=
    append_cases (A := fun _ => True) trivial ha
  · exact h
  refine ⟨?_, fun id row hrow => h.pending id row (he.outbox id row hrow)⟩
  intro e hmem
  rcases he.inserted e hmem with hold | ⟨hcursor, i, hi, hrecord⟩
  · exact h.events e hold
  rw [List.mem_singleton.mp hi] at hrecord
  refine ⟨hcursor, request, draws, c, hq, hc, ?_⟩
  have hcopy : e.cursor = (newEvent db c).cursor ∧
      e.scopeSequence = (newEvent db c).scopeSequence :=
    ⟨congrArg Record.cursor hrecord, congrArg Record.scopeSequence hrecord⟩
  rw [hrecord, hcopy.1, hcopy.2]
  rfl

theorem Rooted.appendEvents {operationId : String} {isFull : String → Bool}
    {events : List EnvelopeEvent} {results : List (Record × Bool)} (h : Rooted env Q db)
    (hq : ∀ e ∈ events, ∀ full, Q (eventRequest operationId e) ⟨"", "", full⟩)
    (ha : appendEvents env operationId isFull events db = .ok (results, db')) :
    Rooted env Q db' := by
  induction events generalizing db results with
  | nil =>
    cases ha
    exact h
  | cons event rest ih =>
    unfold Journal.appendEvents at ha
    obtain ⟨⟨record, inserted, next⟩, hfirst, ha⟩ := except_bind_eq_ok.mp ha
    obtain ⟨⟨records, last⟩, hrest, ha⟩ := except_bind_eq_ok.mp ha
    cases ha
    exact ih (h.append (hq event List.mem_cons_self _) hfirst)
      (fun e he => hq e (List.mem_cons_of_mem event he)) hrest

theorem Rooted.prune (h : Rooted env Q db) (hp : pruneOrphanedMetadata env db = .ok db') :
    Rooted env Q db' :=
  h.edits (Edit.prune (A := fun _ => True) hp).edits

theorem Rooted.markApplied (h : Rooted env Q db) (operationId : String) :
    Rooted env Q (markApplied db operationId) where
  events := h.events
  pending := by
    intro id row hrow envelope henvelope
    have hupdate : (if id = operationId then
        (db.outbox.get? id).map fun row => { row with pending := none }
        else db.outbox.get? id) = some row := by
      rw [← Dict.get?_update]
      exact hrow
    split at hupdate
    · obtain ⟨old, _, rfl⟩ := Option.map_eq_some_iff.mp hupdate
      cases henvelope
    · exact h.pending id row hupdate envelope henvelope

theorem Rooted.finalize (h : Rooted env Q db) {operationId : String} {isFull : String → Bool}
    {envelope : Envelope} {results : List (Record × Bool)}
    (hpending : pendingEnvelope db operationId = .ok envelope)
    (hf : finalize env isFull db envelope = .ok (results, db')) : Rooted env Q db' := by
  obtain ⟨appended, _, ha, hp⟩ := finalize_spec hf
  have hrequests : ∀ e ∈ envelope.events, ∀ full,
      Q (eventRequest envelope.operationId e) ⟨"", "", full⟩ := by
    unfold pendingEnvelope at hpending
    split at hpending
    · rename_i found hfound
      cases hpending
      obtain ⟨row, hrow, hrest⟩ := Option.bind_eq_some_iff.mp hfound
      exact h.pending _ row hrow _ hrest
    · cases hpending
  exact ((h.appendEvents hrequests ha).markApplied _).prune hp

theorem keeps_rooted_commit {α : Type} {t : Database → Except JournalError (α × Database)}
    {entries : α → List Entry}
    (h : ∀ db a db', Rooted env Q db → t db = .ok (a, db') → Rooted env Q db') :
    Keeps (fun s : Store => Rooted env Q s.db) (Store.commit t entries) := by
  apply Keeps.of_state
  intro s hs
  unfold Store.commit
  cases ht : t s.db with
  | error e => exact hs
  | ok r => exact h s.db r.1 r.2 hs ht

theorem keeps_rooted_importLine {reader : LegacyReader} {threadId : String} {line : LegacyLine}
    {draws : Draws} (hq : ∀ record, readLegacy reader threadId line = .ok record →
      Q (legacyRequest threadId record) draws) :
    Keeps (fun s : Store => Rooted env Q s.db) (importLine env reader threadId line draws) := by
  unfold importLine
  cases line with
  | blank => exact Keeps.pure
  | malformed => exact Keeps.raise
  | value raw =>
    refine Triple.bind_lift (fun _ _ hs => hs) fun record hrecord => ?_
    refine Keeps.bind Keeps.read fun existing => ?_
    cases existing with
    | some existing => exact Keeps.bind Keeps.require fun _ => Keeps.pure
    | none =>
      have happend : Keeps (fun s : Store => Rooted env Q s.db)
          (Store.commit (fun db => (appendLegacy env reader threadId record draws db).map
            fun r => ((r.1, r.2.1), r.2.2)) fun r => if r.2 then [.event r.1] else []) := by
        refine keeps_rooted_commit fun db r db' hdb hr => ?_
        rw [except_map_eq_ok] at hr
        obtain ⟨⟨inserted, flag, next⟩, ha, hr⟩ := hr
        cases hr
        unfold appendLegacy at ha
        obtain ⟨_, _, ha⟩ := except_bind_eq_ok.mp ha
        rw [refuse_bind_eq_ok] at ha
        exact hdb.append (hq record hrecord) ha.2
      refine Keeps.bind (Keeps.attempt (Keeps.map happend) fun e => ?_) fun r => ?_
      · cases e with
        | keyExpired message => exact Keeps.pure
        | _ => exact Keeps.raise
      cases r with
      | none => exact Keeps.pure
      | some r =>
        refine Keeps.bind (keeps_rooted_commit fun db marked db' hdb hm => ?_)
          fun _ => Keeps.pure
        have heq : db' = (markImported record.legacyKey (reader.digest raw) db).2 :=
          (congrArg Prod.snd (Except.ok.inj hm)).symm
        rw [heq]
        unfold markImported
        split
        · exact hdb
        · exact ⟨hdb.events, hdb.pending⟩

theorem keeps_rooted_importLines {reader : LegacyReader} {threadId : String}
    {lines : List (LegacyLine × Draws)} (hq : ∀ line ∈ lines, ∀ record,
      readLegacy reader threadId line.1 = .ok record → Q (legacyRequest threadId record) line.2) :
    Keeps (fun s : Store => Rooted env Q s.db) (importLines env reader threadId lines) := by
  induction lines with
  | nil => exact Keeps.pure
  | cons line rest ih =>
    have hline : Keeps (fun s : Store => Rooted env Q s.db)
        (importLine env reader threadId line.1 line.2) :=
      keeps_rooted_importLine (hq line List.mem_cons_self)
    exact Keeps.bind hline fun _ =>
      Keeps.bind (ih fun other ho => hq other (List.mem_cons_of_mem line ho)) fun _ =>
        Keeps.pure

theorem Rooted.perform {s : Store} (h : Rooted env Q s.db) {change : Change}
    (hq : change.Requests Q) : Rooted env Q (change.perform env s).db := by
  cases change with
  | append request draws =>
    refine (keeps_rooted_commit fun db r db' hdb hr => ?_).state h
    rw [except_map_eq_ok] at hr
    obtain ⟨⟨record, inserted, next⟩, ha, hr⟩ := hr
    cases hr
    exact hdb.append hq ha
  | prepare fingerprint envelope full =>
    refine (keeps_rooted_commit fun db preparation db' hdb hp => ?_).state h
    rcases prepare_spec hp with ⟨_, _, _, rfl, _⟩ | ⟨_, _, _, rfl⟩
    · exact hdb
    refine ⟨hdb.events, ?_⟩
    intro id row hrow found hfound
    have hset : (if id = envelope.operationId then
        some (⟨fingerprint, some envelope, !envelope.events.isEmpty⟩ : OutboxRow)
        else db.outbox.get? id) = some row := by
      rw [← Dict.get?_set]
      exact hrow
    split at hset
    · cases hset
      cases hfound
      exact hq
    · exact hdb.pending id row hset found hfound
  | finalize operationId isFull =>
    refine (keeps_rooted_commit fun db results db' hdb hr => ?_).state h
    obtain ⟨envelope, hpending, hr⟩ := except_bind_eq_ok.mp hr
    exact hdb.finalize hpending hr
  | compact scope through snapshot threadId =>
    refine (keeps_rooted_commit fun db result db' hdb hc => ?_).state h
    exact hdb.edits (compact_edits (A := fun _ => True) hc)
  | purge threadId =>
    refine (keeps_rooted_commit fun db result db' hdb hp => ?_).state h
    exact hdb.edits (purgeThread_edits (A := fun _ => True) hp)
  | importLegacy reader threadId lines =>
    have hkeeps : Keeps (fun s : Store => Rooted env Q s.db)
        (importLegacyJsonl env reader threadId lines) := by
      refine Triple.bind_lift (fun _ _ hs => hs) fun id hid => ?_
      have heq : id = threadId := by
        unfold boundedIdentifier at hid
        split at hid
        · exact (Except.ok.inj hid).symm
        · cases hid
      subst heq
      exact Keeps.bind (keeps_rooted_importLines hq) fun _ => Keeps.pure
    exact hkeeps.state h
  | reopen =>
    refine (keeps_rooted_commit fun db _ db' hdb hr => ?_).state h
    rw [except_map_eq_ok] at hr
    obtain ⟨next, hp, hr⟩ := hr
    cases hr
    have hrecount : Rooted env Q (recount db) := ⟨hdb.events, hdb.pending⟩
    exact hrecount.prune hp

theorem rooted_empty : Rooted env Q .empty := by
  refine ⟨?_, ?_⟩
  · intro e he
    cases he
  · intro id row hrow
    cases hrow

/-- A run of such changes keeps the journal rooted. -/
theorem Store.run_rooted {changes : List Change} (hq : ∀ c ∈ changes, c.Requests Q) :
    Rooted env Q (Store.run env changes).db := by
  induction changes using List.reverseRecOn with
  | nil => exact rooted_empty
  | append_singleton changes change ih =>
    rw [Store.run_append]
    exact (ih fun c hc => hq c (List.mem_append_left _ hc)).perform
      (hq change (List.mem_append_right _ List.mem_cons_self))

end

end CodexBridge.Journal
