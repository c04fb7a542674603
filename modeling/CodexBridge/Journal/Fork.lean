import CodexBridge.Journal.Books
import CodexBridge.Journal.Conversation
import CodexBridge.Library.Keyed

/-! # Forking a chat

A fork reads the events of its source and journals a copy of each message under a new
thread. It copies what a message was when it came in, so its conversation is that of the
source just where no edit, removal or loss has changed what the source shows.
-/

namespace CodexBridge.Journal

open Effect

/-! ## The fork -/

/-- What `clone_thread_for_fork` draws and takes from the records of the source. -/
structure Fork where
  sourceId : String
  newId : String
  operationId : String
  write : OutboxWrite
  /-- The payload of its `thread.created`. -/
  created : Json

def copyDraft (newId : String) (r : Record) : Option EventDraft :=
  if r.eventType = "message.created" ∨ r.eventType = "message.completed" then
    match (Json.field? r.payload "role").bind Json.str?,
      (Json.field? r.payload "text").bind Json.str? with
    | some role, some text =>
      if role = "user" ∨ role = "assistant" then
        some ⟨"thread", r.eventType, .obj [("role", .str role), ("text", .str text)],
          some newId, none⟩
      else none
    | _, _ => none
  else none

def Fork.opening (f : Fork) : List EventDraft :=
  [⟨"thread", "thread.created", f.created, some f.newId, none⟩,
    ⟨"thread", "thread.updated", .obj [("forked_from", .str f.sourceId)], some f.newId, none⟩]

def Fork.operation (f : Fork) (records : List Record) : Operation :=
  ⟨f.operationId, [f.write], f.opening ++ records.filterMap (copyDraft f.newId)⟩

/-- `clone_thread_for_fork`: between the reading and the commit, `later` is journaled by
others, or left over from before and reconciled. -/
def Store.cloneThreadForFork (env : Environment) (f : Fork) (later : List Change)
    (draws : CommitDraws) : Action Store JournalError Unit := do
  let db ← read Store.db
  let records ← lift (replayThread db f.sourceId none)
  modify fun s => later.foldl (Change.perform env) s
  let (fingerprint, envelope) ← lift (checkOperation env (f.operation records) draws.now)
  let _ ← Store.commit
    (fun db => prepare env db fingerprint envelope (draws.isFull envelope.operationId))
    fun _ => []
  let _ ← Store.finalize env envelope.operationId draws.isFull
  pure ()

structure Fork.Fresh (f : Fork) (s : Store) : Prop where
  thread : ∀ r ∈ journaledEvents s.log, r.scope ≠ .thread f.newId
  operation : s.db.outbox.get? f.operationId = none
  keys : ∀ i, s.db.ledger.get? (outboxKey f.operationId i) = none

def shownAt (env : Environment) (jsonText : Json → String) (db : Database) (threadId : String)
    (sequence : Nat) : Option (String × String) :=
  (visibleRow env (versionsOf (candidates jsonText db threadId) sequence)).map fun row =>
    (row.role, row.text)

def conversation (env : Environment) (jsonText : Json → String) (db : Database)
    (threadId : String) : List (String × String) :=
  ((visible env jsonText db threadId).insertionSort fun a b => a.sequence ≤ b.sequence).map
    fun row => (row.role, row.text)

/-- What an event that brought a message shows by itself. -/
def originalText (env : Environment) (r : Record) : Option (String × String) :=
  if r.eventType = "message.created" ∨ r.eventType = "message.completed" then
    (r.version? env).map fun v => (v.role, v.text)
  else none

/-- What the retained events that brought messages show by themselves, in order. -/
def broughtIn (env : Environment) (db : Database) (threadId : String) : List (String × String) :=
  ((sequenceRows db (.thread threadId) 0).map eventRecord).filterMap (originalText env)

/-- What the retained event that brought a message shows by itself. -/
def originalAt (env : Environment) (db : Database) (threadId : String) (sequence : Nat) :
    Option (String × String) :=
  ((sequenceRows db (.thread threadId) 0).find? fun e => e.scopeSequence = sequence).bind fun e =>
    originalText env (eventRecord e)

/-- No edit or removal changed what a message shows, and none is shown without the event
that brought it. -/
def Unedited (env : Environment) (jsonText : Json → String) (db : Database)
    (threadId : String) : Prop :=
  ∀ sequence, shownAt env jsonText db threadId sequence = originalAt env db threadId sequence

def ShownBefore (env : Environment) (jsonText : Json → String) (db : Database)
    (threadId : String) : Prop :=
  ∀ sequence, shownAt env jsonText db threadId sequence ≠ none →
    originalAt env db threadId sequence ≠ none

/-- A JSON object of the role and the text alone is not longer than one that has them
among its fields. -/
def Environment.Concise (env : Environment) : Prop :=
  ∀ payload role text, Json.field? payload "role" = some (.str role) →
    Json.field? payload "text" = some (.str text) →
      env.payloadBytes [("role", .str role), ("text", .str text)] ≤ env.payloadBytes payload

section

variable {env : Environment} {jsonText : Json → String} {db : Database} {threadId : String}

theorem visible_sorted (env : Environment) (jsonText : Json → String) (db : Database)
    (threadId : String) :
    ((visible env jsonText db threadId).insertionSort fun a b =>
      a.sequence ≤ b.sequence).Pairwise fun a b => a.sequence < b.sequence :=
  Keyed.pairwise_insertionSort (visible_nodup env jsonText db threadId)

theorem conversation_eq {sequences : List Nat} (hs : sequences.Pairwise (· < ·))
    (hcover : ∀ row ∈ visible env jsonText db threadId, row.sequence ∈ sequences) :
    conversation env jsonText db threadId =
      sequences.filterMap (shownAt env jsonText db threadId) := by
  have hmem : ∀ row, row ∈ (visible env jsonText db threadId).insertionSort
      (fun a b => a.sequence ≤ b.sequence) ↔ row ∈ visible env jsonText db threadId :=
    fun row => List.mem_insertionSort _
  have hread := Keyed.filterMap_find? (visible_sorted env jsonText db threadId) hs
    (fun row hrow => hcover row ((hmem row).mp hrow)) fun row => some (row.role, row.text)
  unfold conversation
  rw [← List.filterMap_eq_map]
  change List.filterMap (fun row : ConversationRow => some (row.role, row.text)) _ = _
  rw [← hread]
  apply List.filterMap_congr
  intro n _
  unfold shownAt
  cases hrow : visibleRow env (versionsOf (candidates jsonText db threadId) n) with
  | none =>
    have hnone : ((visible env jsonText db threadId).insertionSort fun a b =>
        a.sequence ≤ b.sequence).find? (fun row => row.sequence = n) = none := by
      rw [List.find?_eq_none]
      intro row hin hn
      have hsequence : row.sequence = n := by simpa using hn
      have hshown := mem_visible.mp ((hmem row).mp hin)
      rw [hsequence, hrow] at hshown
      cases hshown
    rw [hnone]
    rfl
  | some row =>
    have hsequence := (visibleRow_sequence hrow).2
    have hin : row ∈ (visible env jsonText db threadId).insertionSort
        fun a b => a.sequence ≤ b.sequence :=
      (hmem row).mpr (mem_visible.mpr (by rw [hsequence]; exact hrow))
    rw [Keyed.find?_eq_some (visible_sorted env jsonText db threadId) hin hsequence]
    rfl

theorem originals_eq {s : Store} (h : Sequenced s) {sequences : List Nat}
    (hs : sequences.Pairwise (· < ·))
    (hcover : ∀ e ∈ sequenceRows s.db (.thread threadId) 0, e.scopeSequence ∈ sequences) :
    broughtIn env s.db threadId = sequences.filterMap (originalAt env s.db threadId) := by
  unfold broughtIn
  have hread := Keyed.filterMap_find? (sequenceRows_sorted h (.thread threadId)) hs hcover
    fun e => originalText env (eventRecord e)
  rw [List.filterMap_map]
  exact hread.symm

end

end CodexBridge.Journal
