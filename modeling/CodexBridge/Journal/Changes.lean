import CodexBridge.Journal.Replay

/-! # Runs of the store

Beside the tables a run keeps a log, which belongs to no instance: in order, every
event inserted and every thread purged. A call is one transaction or several; each
that commits stays, also when the call then fails.
-/

namespace CodexBridge.Journal

open Effect

inductive Entry where
  | event (record : Record)
  | purge (threadId : String)

structure Store where
  db : Database
  log : List Entry

def Store.initial : Store := ⟨.empty, []⟩

/-- A transaction with what it adds to the log; an error rolls it back. -/
def Store.commit {α : Type} (t : Database → Except JournalError (α × Database))
    (entries : α → List Entry) : Action Store JournalError α := fun s =>
  match t s.db with
  | .ok (a, db) => (.ok a, ⟨db, s.log ++ entries a⟩)
  | .error e => (.error e, s)

/-! ## Importing a legacy log -/

inductive LegacyLine where
  | blank
  | malformed
  | value (raw : Json)

/-- Library functions of an import. -/
structure LegacyReader where
  text : Json → String
  /-- `hashlib.sha256` of the canonical JSON. -/
  digest : Json → String
  /-- `float(literal) == 0`. -/
  isZero : String → Bool

def legacyEventFields : String → Option (List String)
  | "artifact.added" => publicEventFields "artifact.added"
  | "attachment.added" => publicEventFields "attachment.added"
  | "codex.event" => publicEventFields "codex.event"
  | "message.completed" => some ["run_id", "role", "text"]
  | "message.created" => some ["run_id", "role", "text", "client_request_id", "queued"]
  | "run.cancelled" => some ["run_id"]
  | "run.completed" => some ["run_id"]
  | "run.dequeued" => some ["run_id"]
  | "run.failed" => some ["run_id", "failure_type", "blocked", "auth_required"]
  | "run.queue_cleared" => some ["queued_count"]
  | "run.queued" => some ["run_id"]
  | "run.started" => some ["run_id"]
  | "session.bound" => some ["run_id"]
  | "thread.archived" => some ["archived_at"]
  | "thread.created" => publicEventFields "thread.created"
  | "thread.restored" => some ["updated_at"]
  | "thread.updated" =>
    some ["title", "mode", "model_override", "thinking_override", "updated_at"]
  | _ => none

def invalidLegacyRecord : JournalError := .store "A legacy event record is invalid."

/-- `bool(value)`. -/
def LegacyReader.truthy (reader : LegacyReader) : Json → Bool
  | .null => false
  | .bool b => b
  | .int n => n ≠ 0
  | .float literal => !reader.isZero literal
  | .str s => s ≠ ""
  | .arr items => !items.isEmpty
  | .obj fields => !fields.isEmpty

structure LegacyRecord where
  legacyKey : String
  sequence : Nat
  eventId : Json
  eventType : String
  payload : Json
  timestamp : String

/-- `_bounded_identifier` on a value that need not be a string. -/
def legacyIdentifier (maximum : Nat) : Json → Except JournalError String
  | .str s =>
    match boundedIdentifier s "legacy field" maximum with
    | .ok s => .ok s
    | .error _ => .error invalidLegacyRecord
  | _ => .error invalidLegacyRecord

def legacyEvent (eventType : String) (payload : Json) : Except JournalError (String × Json) :=
  match legacyEventFields eventType, payload with
  | none, _ => .ok ("legacy.event", .obj [("legacy_event_type", .str eventType)])
  | some kept, .obj fields => .ok (eventType, .obj (fields.filter fun f => f.1 ∈ kept))
  | some _, _ => .error invalidLegacyRecord

/-- The checks of `import_legacy_jsonl` on one line. -/
def readLegacy (reader : LegacyReader) (threadId : String) :
    LegacyLine → Except JournalError LegacyRecord
  | .value (.obj fields) => do
      refuse ((Json.field? fields "thread_id").bind Json.str? ≠ some threadId) invalidLegacyRecord
      match Json.field? fields "sequence", Json.field? fields "event_id",
        Json.field? fields "event_type", Json.field? fields "timestamp" with
      | some sequence, some eventId, some eventType, some timestamp => do
          let sequence ← match sequence.int? with
            | some n => if 1 ≤ n then .ok n.toNat else .error invalidLegacyRecord
            | none => .error invalidLegacyRecord
          let given ← legacyIdentifier 128 eventType
          let (eventType, payload) ←
            legacyEvent given ((Json.field? fields "payload").getD (.obj []))
          let timestamp ← legacyIdentifier 64 timestamp
          return ⟨"legacy:" ++ threadId ++ ":" ++ reader.text eventId, sequence, eventId,
            eventType, payload, timestamp⟩
      | _, _, _, _ => .error invalidLegacyRecord
  | _ => .error invalidLegacyRecord

def legacyRequest (threadId : String) (record : LegacyRecord) : AppendRequest where
  operationKey := record.legacyKey
  scope := "thread"
  threadId := some threadId
  eventType := record.eventType
  payload := record.payload
  timestamp := some record.timestamp
  operationId := none
  eventId := record.eventId.str?
  scopeSequence := some record.sequence

/-- `_append` of a legacy record: an identifier that is no string but true is refused last. -/
def appendLegacy (env : Environment) (reader : LegacyReader) (threadId : String)
    (record : LegacyRecord) (draws : Draws) (db : Database) :
    Except JournalError (Record × Bool × Database) := do
  let _ ← checkAppend env (legacyRequest threadId record) draws
  refuse (record.eventId.str? = none ∧ reader.truthy record.eventId) (.value "event id is invalid")
  append env db (legacyRequest threadId record) draws

/-- `INSERT INTO legacy_import_ledger`, and whether the row is new. -/
def markImported (key fingerprint : String) (db : Database) : Bool × Database :=
  if db.legacyImports.contains key then (false, db)
  else (true, { db with legacyImports := db.legacyImports.set key ⟨fingerprint, key⟩ })

inductive LegacyOutcome where
  | skipped
  | imported
  | duplicate
  deriving DecidableEq

/-- One turn of the loop of `import_legacy_jsonl`. -/
def importLine (env : Environment) (reader : LegacyReader) (threadId : String) (line : LegacyLine)
    (draws : Draws) : Action Store JournalError LegacyOutcome := do
  match line with
  | .blank => pure .skipped
  | .malformed => raise invalidLegacyRecord
  | .value raw => do
      let record ← lift (readLegacy reader threadId (.value raw))
      match ← read fun s => s.db.legacyImports.get? record.legacyKey with
      | some existing => do
          require (existing.fingerprint = reader.digest raw)
            (.keyConflict "A legacy event identifier has conflicting content.")
          pure .duplicate
      | none => do
          let inserted ← attempt
            (some <$> Store.commit (fun db => (appendLegacy env reader threadId record draws db).map
                fun r => ((r.1, r.2.1), r.2.2))
              fun r => if r.2 then [.event r.1] else [])
            fun e => match e with
              | .keyExpired _ => pure none
              | e => raise e
          match inserted with
          | none => pure .duplicate
          | some (_, inserted) => do
              let marked ← Store.commit
                (fun db => .ok (markImported record.legacyKey (reader.digest raw) db)) fun _ => []
              pure (if marked && inserted then .imported else .duplicate)

/-- The loop of `import_legacy_jsonl`. -/
def importLines (env : Environment) (reader : LegacyReader) (threadId : String) :
    List (LegacyLine × Draws) → Action Store JournalError (List LegacyOutcome)
  | [] => pure []
  | (line, draws) :: rest => do
      let outcome ← importLine env reader threadId line draws
      let outcomes ← importLines env reader threadId rest
      pure (outcome :: outcomes)

structure LegacyImportResult where
  scannedCount : Nat
  importedCount : Nat
  duplicateCount : Nat

def importLegacyJsonl (env : Environment) (reader : LegacyReader) (threadId : String)
    (lines : List (LegacyLine × Draws)) : Action Store JournalError LegacyImportResult := do
  let threadId ← lift (boundedIdentifier threadId "thread id" 128)
  let outcomes ← importLines env reader threadId lines
  pure ⟨outcomes.countP (· ≠ .skipped), outcomes.count .imported, outcomes.count .duplicate⟩

def recount (db : Database) : Database :=
  { db with
    scopes := db.scopes.mapValues fun scope state =>
      let events := db.events.filter fun e => e.scope = scope
      { state with
        retainedCount := events.length
        retainedBytes := (events.map EventRow.payloadBytes).sum } }

def initializeStore (env : Environment) (db : Database) : Except JournalError Database :=
  pruneOrphanedMetadata env (recount db)

inductive Change where
  | append (request : AppendRequest) (draws : Draws)
  | prepare (fingerprint : String) (envelope : Envelope) (full : Bool)
  | finalize (operationId : String) (isFull : String → Bool)
  | compact (scope : String) (through snapshot : Nat) (threadId : Option String)
  | purge (threadId : String)
  | importLegacy (reader : LegacyReader) (threadId : String) (lines : List (LegacyLine × Draws))
  | reopen

/-- `_append` with its own transaction. -/
def Store.append (env : Environment) (request : AppendRequest) (draws : Draws) :
    Action Store JournalError (Record × Bool) :=
  Store.commit (fun db => (Journal.append env db request draws).map fun r => ((r.1, r.2.1), r.2.2))
    fun r => if r.2 then [.event r.1] else []

/-- `_finalize` of a pending operation. -/
def Store.finalize (env : Environment) (operationId : String) (isFull : String → Bool) :
    Action Store JournalError (List (Record × Bool)) :=
  Store.commit
    (fun db => do
      let envelope ← pendingEnvelope db operationId
      Journal.finalize env isFull db envelope)
    fun results => results.filterMap fun r => if r.2 then some (.event r.1) else none

/-- The state a call leaves, however it ends. -/
def Change.perform (env : Environment) (s : Store) : Change → Store
  | .append request draws => (Store.append env request draws s).2
  | .prepare fingerprint envelope full =>
    (Store.commit (fun db => Journal.prepare env db fingerprint envelope full) (fun _ => []) s).2
  | .finalize operationId isFull => (Store.finalize env operationId isFull s).2
  | .compact scope through snapshot threadId =>
    (Store.commit (fun db => Journal.compact env db scope through snapshot threadId)
      (fun _ => []) s).2
  | .purge threadId =>
    (Store.commit (fun db => purgeThread env db threadId) (fun _ => [.purge threadId]) s).2
  | .importLegacy reader threadId lines => (importLegacyJsonl env reader threadId lines s).2
  | .reopen =>
    (Store.commit (fun db => (initializeStore env db).map fun db => ((), db)) (fun _ => []) s).2

def Store.run (env : Environment) (changes : List Change) : Store :=
  changes.foldl (Change.perform env) .initial

/-- What a transaction, or an append inside one, does to the store; `K` says whether it
may be a compaction. -/
inductive Step (env : Environment) (K : Prop) : Store → Store → Prop where
  | append {db db' : Database} {log : List Entry} {request : AppendRequest} {draws : Draws}
      {record : Record}
      (appended : Journal.append env db request draws = .ok (record, true, db')) :
      Step env K ⟨db, log⟩ ⟨db', log ++ [.event record]⟩
  | metadata {db : Database} {log : List Entry} (ledger : Dict String LedgerRow)
      (outbox : Dict String OutboxRow) (tombstones : List String)
      (legacyImports : Dict String LegacyRow) :
      Step env K ⟨db, log⟩
        ⟨{ db with
            ledger := ledger
            outbox := outbox
            tombstones := tombstones
            legacyImports := legacyImports }, log⟩
  | compact {db db' : Database} {log : List Entry} {scope : String} {through snapshot : Nat}
      {threadId : Option String} {result : CompactionResult} (allowed : K)
      (compacted : Journal.compact env db scope through snapshot threadId = .ok (result, db')) :
      Step env K ⟨db, log⟩ ⟨db', log⟩
  | purge {db db' : Database} {log : List Entry} {threadId : String} {result : CompactionResult}
      (purged : purgeThread env db threadId = .ok (result, db')) :
      Step env K ⟨db, log⟩ ⟨db', log ++ [.purge threadId]⟩
  | recount {db : Database} {log : List Entry} : Step env K ⟨db, log⟩ ⟨Journal.recount db, log⟩

inductive Steps (env : Environment) (K : Prop) : Store → Store → Prop where
  | nil {s : Store} : Steps env K s s
  | step {s t u : Store} (first : Step env K s t) (more : Steps env K t u) : Steps env K s u

section

variable {env : Environment} {K : Prop} {s t u : Store}

theorem Step.mono {K' : Prop} (h : Step env K s t) (hk : K → K') : Step env K' s t := by
  cases h with
  | append appended => exact .append appended
  | metadata ledger outbox tombstones legacyImports =>
    exact .metadata ledger outbox tombstones legacyImports
  | compact allowed compacted => exact .compact (hk allowed) compacted
  | purge purged => exact .purge purged
  | recount => exact .recount

theorem Steps.mono {K' : Prop} (h : Steps env K s t) (hk : K → K') : Steps env K' s t := by
  induction h with
  | nil => exact .nil
  | step first _ ih => exact .step (first.mono hk) ih

theorem Step.steps (h : Step env K s t) : Steps env K s t := .step h .nil

theorem Steps.trans (h : Steps env K s t) (k : Steps env K t u) : Steps env K s u := by
  induction h with
  | nil => exact k
  | step first _ ih => exact .step first (ih k)

theorem Steps.keeps {I : Store → Prop} (hstep : ∀ s t, I s → Step env K s t → I t)
    (h : Steps env K s t) (hi : I s) : I t := by
  induction h with
  | nil => exact hi
  | step first _ ih => exact ih (hstep _ _ hi first)

theorem append_steps {db db' : Database} (log : List Entry) {request : AppendRequest}
    {draws : Draws} {record : Record} {inserted : Bool}
    (h : append env db request draws = .ok (record, inserted, db')) :
    Steps env K ⟨db, log⟩ ⟨db', log ++ if inserted then [.event record] else []⟩ := by
  cases inserted with
  | true => exact (Step.append h).steps
  | false =>
    obtain ⟨_, _, ⟨_, _, _, _, _, rfl⟩ | ⟨_, _, hins, _⟩⟩ :=
      append_cases (A := fun _ => True) trivial h
    · simpa using Steps.nil
    · cases hins

theorem prune_step {db db' : Database} {log : List Entry}
    (h : pruneOrphanedMetadata env db = .ok db') : Step env K ⟨db, log⟩ ⟨db', log⟩ := by
  obtain ⟨tombstones, legacy, rfl, _⟩ := prune_spec h
  exact Step.metadata _ _ _ _

theorem appendEvents_steps {operationId : String} {isFull : String → Bool}
    {events : List EnvelopeEvent} {results : List (Record × Bool)} {db db' : Database}
    {log : List Entry} (h : appendEvents env operationId isFull events db = .ok (results, db')) :
    Steps env K ⟨db, log⟩
      ⟨db', log ++ results.filterMap fun r => if r.2 then some (.event r.1) else none⟩ := by
  induction events generalizing db results log with
  | nil =>
    cases h
    simpa using Steps.nil
  | cons event rest ih =>
    unfold appendEvents at h
    obtain ⟨⟨record, inserted, next⟩, hfirst, h⟩ := except_bind_eq_ok.mp h
    obtain ⟨⟨records, last⟩, hrest, h⟩ := except_bind_eq_ok.mp h
    cases h
    have hboth := (append_steps log hfirst).trans (ih hrest)
    cases inserted with
    | true => simpa using hboth
    | false => simpa using hboth

end

section

variable {env : Environment} {K : Prop}

variable {start : Store}

theorem keeps_commit {α : Type}
    {t : Database → Except JournalError (α × Database)} {entries : α → List Entry}
    (h : ∀ db log a db', t db = .ok (a, db') → Steps env K ⟨db, log⟩ ⟨db', log ++ entries a⟩) :
    Keeps (Steps env K start) (Store.commit t entries) := by
  intro s hs
  cases ht : t s.db with
  | error e =>
    have hrun : Store.commit t entries s = (.error e, s) := by
      unfold Store.commit
      rw [ht]
    rw [hrun]
    refine ⟨?_, ?_⟩
    · intro a u hu
      cases hu
    · intro e' u hu
      cases hu
      exact hs
  | ok r =>
    have hrun : Store.commit t entries s = (.ok r.1, ⟨r.2, s.log ++ entries r.1⟩) := by
      unfold Store.commit
      rw [ht]
    have hmore := hs.trans (h s.db s.log r.1 r.2 ht)
    rw [hrun]
    refine ⟨?_, ?_⟩
    · intro a u hu
      cases hu
      exact hmore
    · intro e u hu
      cases hu

theorem keeps_append (request : AppendRequest) (draws : Draws) :
    Keeps (Steps env K start) (Store.append env request draws) := by
  refine keeps_commit fun db log r db' hr => ?_
  rw [except_map_eq_ok] at hr
  obtain ⟨⟨record, inserted, next⟩, ha, hr⟩ := hr
  cases hr
  exact append_steps _ ha

theorem keeps_finalize (operationId : String) (isFull : String → Bool) :
    Keeps (Steps env K start) (Store.finalize env operationId isFull) := by
  refine keeps_commit fun db log results db' hr => ?_
  obtain ⟨envelope, _, hr⟩ := except_bind_eq_ok.mp hr
  obtain ⟨appended, _, ha, hp⟩ := finalize_spec hr
  have hmark : Step env K ⟨appended, log ++ results.filterMap fun r =>
      if r.2 then some (.event r.1) else none⟩ ⟨markApplied appended envelope.operationId, _⟩ :=
    Step.metadata _ _ _ _
  exact (appendEvents_steps ha).trans (hmark.steps.trans (prune_step hp).steps)

theorem keeps_appendLegacy (reader : LegacyReader) (threadId : String)
    (record : LegacyRecord) (draws : Draws) :
    Keeps (Steps env K start)
      (Store.commit (fun db => (appendLegacy env reader threadId record draws db).map
          fun r => ((r.1, r.2.1), r.2.2))
        fun r => if r.2 then [.event r.1] else []) := by
  refine keeps_commit fun db log r db' hr => ?_
  rw [except_map_eq_ok] at hr
  obtain ⟨⟨inserted, flag, next⟩, ha, hr⟩ := hr
  cases hr
  unfold appendLegacy at ha
  obtain ⟨_, _, ha⟩ := except_bind_eq_ok.mp ha
  rw [refuse_bind_eq_ok] at ha
  exact append_steps _ ha.2

theorem markImported_step (key fingerprint : String) (db : Database) (log : List Entry) :
    Step env K ⟨db, log⟩ ⟨(markImported key fingerprint db).2, log⟩ := by
  unfold markImported
  split
  · exact Step.metadata db.ledger db.outbox db.tombstones db.legacyImports
  · exact Step.metadata db.ledger db.outbox db.tombstones _

theorem keeps_importLine (reader : LegacyReader) (threadId : String)
    (line : LegacyLine) (draws : Draws) :
    Keeps (Steps env K start) (importLine env reader threadId line draws) := by
  unfold importLine
  cases line with
  | blank => exact Keeps.pure
  | malformed => exact Keeps.raise
  | value raw =>
    refine Keeps.bind Keeps.lift fun record => Keeps.bind Keeps.read fun existing => ?_
    cases existing with
    | some existing => exact Keeps.bind Keeps.require fun _ => Keeps.pure
    | none =>
      refine Keeps.bind
        (Keeps.attempt (Keeps.map (keeps_appendLegacy reader threadId record draws))
          fun e => ?_) fun r => ?_
      · cases e with
        | keyExpired message => exact Keeps.pure
        | _ => exact Keeps.raise
      cases r with
      | none => exact Keeps.pure
      | some r =>
        refine Keeps.bind (keeps_commit fun db log marked db' hm => ?_) fun _ => Keeps.pure
        have hdb : db' = (markImported record.legacyKey (reader.digest raw) db).2 :=
          (congrArg Prod.snd (Except.ok.inj hm)).symm
        rw [List.append_nil, hdb]
        exact (markImported_step _ _ db log).steps

theorem keeps_importLines (reader : LegacyReader) (threadId : String)
    (lines : List (LegacyLine × Draws)) :
    Keeps (Steps env K start) (importLines env reader threadId lines) := by
  induction lines with
  | nil => exact Keeps.pure
  | cons line rest ih =>
    exact Keeps.bind (keeps_importLine reader threadId line.1 line.2) fun _ =>
      Keeps.bind ih fun _ => Keeps.pure

def Change.Compacts : Change → Prop
  | .compact .. => True
  | _ => False

theorem Change.perform_steps (env : Environment) (change : Change) (s : Store) :
    Steps env change.Compacts s (change.perform env s) := by
  cases change with
  | append request draws => exact (keeps_append request draws).state .nil
  | prepare fingerprint envelope full =>
    refine (keeps_commit fun db log preparation db' hp => ?_).state .nil
    rw [List.append_nil]
    rcases prepare_spec hp with ⟨_, _, _, rfl, _⟩ | ⟨_, _, _, rfl⟩
    · exact .nil
    · exact (Step.metadata _ _ _ _).steps
  | finalize operationId isFull => exact (keeps_finalize operationId isFull).state .nil
  | compact scope through snapshot threadId =>
    refine (keeps_commit fun db log result db' hc => ?_).state .nil
    rw [List.append_nil]
    exact (Step.compact trivial hc).steps
  | purge threadId =>
    exact (keeps_commit fun db log result db' hp => (Step.purge hp).steps).state .nil
  | importLegacy reader threadId lines =>
    have hkeeps : Keeps (Steps env False s) (importLegacyJsonl env reader threadId lines) :=
      Keeps.bind Keeps.lift fun threadId =>
        Keeps.bind (keeps_importLines reader threadId lines) fun _ => Keeps.pure
    exact hkeeps.state .nil
  | reopen =>
    refine (keeps_commit fun db log _ db' hr => ?_).state .nil
    rw [except_map_eq_ok] at hr
    obtain ⟨next, hp, hr⟩ := hr
    cases hr
    rw [List.append_nil]
    exact Step.recount.steps.trans (prune_step hp).steps

theorem Store.run_append (changes more : List Change) :
    Store.run env (changes ++ more) = more.foldl (Change.perform env) (Store.run env changes) :=
  List.foldl_append

theorem Store.run_steps (env : Environment) (changes more : List Change) :
    Steps env True (Store.run env changes) (Store.run env (changes ++ more)) := by
  rw [Store.run_append]
  induction more using List.reverseRecOn with
  | nil => exact .nil
  | append_singleton more change ih =>
    rw [List.foldl_append]
    exact ih.trans ((change.perform_steps env _).mono fun _ => trivial)

theorem Store.run_invariant {I : Store → Prop} (hinit : I .initial)
    (hstep : ∀ s t, I s → Step env True s t → I t) (changes : List Change) :
    I (Store.run env changes) :=
  (Store.run_steps env [] changes).keeps hstep hinit

end

end CodexBridge.Journal
