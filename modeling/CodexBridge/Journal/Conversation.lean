import CodexBridge.Journal.Transcript
import CodexBridge.Library.Paging
import Mathlib.Data.List.Dedup

/-! # The conversation view

The view of one chat is computed on every read, from the index and the events still
retained. Either of them may have forgotten a message; of the versions the two hold the
latest decides what is shown.
-/

namespace CodexBridge.Journal

open Effect

/-! ## The projection -/

inductive SqlValue where
  | null
  | integer (value : Int)
  | real (literal : String)
  | text (value : String)
  deriving DecidableEq

/-- `json_extract`: an array or an object comes as the text of its JSON. -/
def jsonExtract (jsonText : Json → String) : Option Json → SqlValue
  | none | some .null => .null
  | some (.bool b) => .integer (if b then 1 else 0)
  | some (.int n) => .integer n
  | some (.float literal) => .real literal
  | some (.str s) => .text s
  | some value => .text (jsonText value)

/-- A row of `candidates`. -/
structure Candidate where
  cursor : Nat
  sequence : Nat
  role : SqlValue
  text : SqlValue
  timestamp : String
  eventType : String
  retained : Bool
  anchorCursor : Option Nat
  deriving DecidableEq

def indexedCandidate (sequence : Nat) (row : TranscriptRow) : Candidate where
  cursor := row.cursor
  sequence := sequence
  role := .text row.role
  text := .text row.text
  timestamp := row.timestamp
  eventType := "indexed"
  retained := false
  anchorCursor := row.anchorCursor

def retainedCandidate (jsonText : Json → String) (row : EventRow) : Option Candidate :=
  let role := jsonExtract jsonText (Json.field? row.payload "role")
  let text := jsonExtract jsonText (Json.field? row.payload "text")
  if row.eventType = "message.created" ∨ row.eventType = "message.completed" then
    some ⟨row.cursor, row.scopeSequence, role, text, row.timestamp, row.eventType, true,
      some row.cursor⟩
  else if row.eventType = "message.updated" ∨ row.eventType = "message.removed" then
    match Json.field? row.payload "message_sequence" with
    | some (.int n) =>
      if 0 < n then
        some ⟨row.cursor, n.toNat, role, text, row.timestamp, row.eventType, true, none⟩
      else none
    | _ => none
  else none

def candidates (jsonText : Json → String) (db : Database) (threadId : String) : List Candidate :=
  (db.transcript.rows.entries.filter fun e => e.1.1 = threadId).map
      (fun e => indexedCandidate e.1.2 e.2) ++
    (eventsOf db (.thread threadId)).filterMap (retainedCandidate jsonText)

/-- `ORDER BY cursor DESC, retained DESC`. -/
def Newer (a b : Candidate) : Prop :=
  b.cursor < a.cursor ∨ b.cursor = a.cursor ∧ (b.retained = true → a.retained = true)

instance (a b : Candidate) : Decidable (Newer a b) := by
  unfold Newer
  infer_instance

/-- `PARTITION BY scope_sequence`, the newest version first. -/
def versionsOf (rows : List Candidate) (sequence : Nat) : List Candidate :=
  (rows.filter fun c => c.sequence = sequence).insertionSort Newer

/-- A row of `visible`. -/
structure ConversationRow where
  cursor : Nat
  sequence : Nat
  role : String
  text : String
  timestamp : String
  anchorCursor : Option Nat
  deriving DecidableEq

/-- `role IN ('user', 'assistant')`. -/
def visibleRole : SqlValue → Option String
  | .text role => if role = "user" ∨ role = "assistant" then some role else none
  | _ => none

def searchableText (env : Environment) : SqlValue → Option String
  | .text s => if env.mentionsCredential s then none else some s
  | _ => none

def Candidate.shown (env : Environment) (c : Candidate) (anchor : Option Nat) :
    Option ConversationRow :=
  if c.eventType = "message.removed" then none
  else
    match visibleRole c.role, searchableText env c.text with
    | some role, some text => some ⟨c.cursor, c.sequence, role, text, c.timestamp, anchor⟩
    | _, _ => none

/-- `WHERE version = 1`. -/
def visibleRow (env : Environment) (versions : List Candidate) : Option ConversationRow :=
  versions.head?.bind fun latest =>
    latest.shown env (versions.filterMap Candidate.anchorCursor).min?

def visible (env : Environment) (jsonText : Json → String) (db : Database) (threadId : String) :
    List ConversationRow :=
  let rows := candidates jsonText db threadId
  (rows.map Candidate.sequence).dedup.filterMap fun sequence =>
    visibleRow env (versionsOf rows sequence)

/-- `instr(unicode_casefold(text), :query) > 0`. -/
def isMatch (casefold : String → String) (query : String) (row : ConversationRow) : Bool :=
  (casefold query).toList <:+: (casefold row.text).toList

def searchConversationMessages (env : Environment) (jsonText : Json → String)
    (casefold : String → String) (db : Database) (threadId query : String)
    (before : Option Nat) (limit : Nat) : List ConversationRow × Nat :=
  let found := (visible env jsonText db threadId).filter (isMatch casefold query)
  let below := found.filter (Paging.isBelow ConversationRow.sequence before)
  ((Paging.listing ConversationRow.sequence below).take limit, found.length)

/-- The pages a client of the search reads, each `limit` rows long. -/
def conversationPages (env : Environment) (jsonText : Json → String)
    (casefold : String → String) (db : Database) (threadId query : String)
    (before : Option Nat) (limit fuel : Nat) : List (List ConversationRow) :=
  Paging.pages ConversationRow.sequence
    (fun before limit =>
      (searchConversationMessages env jsonText casefold db threadId query before limit).1)
    limit fuel before

def recallEntry (latest : String × Nat → Option Record) : Entry → String × Nat → Option Record
  | .event r =>
    match r.message? with
    | some key => Function.update latest key (some r)
    | none => latest
  | .purge threadId => fun key => if key.1 = threadId then none else latest key

theorem recallEntry_of_none {latest : String × Nat → Option Record} {r : Record}
    (h : r.message? = none) : recallEntry latest (.event r) = latest := by
  unfold recallEntry
  simp only [h]

theorem recallEntry_of_some {latest : String × Nat → Option Record} {r : Record}
    {key : String × Nat}
    (h : r.message? = some key) :
    recallEntry latest (.event r) = Function.update latest key (some r) := by
  unfold recallEntry
  simp only [h]

def latestRecord (log : List Entry) : String × Nat → Option Record :=
  log.foldl recallEntry fun _ => none

theorem latestRecord_snoc (log : List Entry) (entry : Entry) :
    latestRecord (log ++ [entry]) = recallEntry (latestRecord log) entry :=
  List.foldl_append

theorem viewOf_eq_latest (env : Environment) (log : List Entry) (key : String × Nat) :
    viewOf env log key = (latestRecord log key).bind (Record.version? env) := by
  induction log using List.reverseRecOn with
  | nil => rfl
  | append_singleton log entry ih =>
    rw [latestRecord_snoc, viewOf_append]
    change observe env (viewOf env log) entry key = _
    cases entry with
    | purge threadId =>
      unfold observe recallEntry
      by_cases hk : key.1 = threadId
      · simp [hk]
      · simp [hk, ih]
    | event r =>
      cases hm : r.message? with
      | none =>
        rw [observe_of_none hm, recallEntry_of_none hm]
        exact ih
      | some k =>
        rw [observe_of_some hm, recallEntry_of_some hm]
        by_cases hk : key = k
        · rw [hk, Function.update_self, Function.update_self]
          rfl
        · rw [Function.update_of_ne hk, Function.update_of_ne hk]
          exact ih

structure Remembered (s : Store) : Prop where
  latest : ∀ e ∈ s.db.events, ∀ key, (eventRecord e).message? = some key →
    ∃ e' ∈ s.db.events, latestRecord s.log key = some (eventRecord e') ∧ e.cursor ≤ e'.cursor
  hashable : ∀ e ∈ s.db.events, (eventRecord e).message? ≠ none →
    e.eventType ≠ "message.removed" → isUnhashable (Json.field? e.payload "role") = false

theorem remembered_initial : Remembered .initial where
  latest e he := by cases he
  hashable e he := by cases he

theorem scope_of_message {r : Record} {key : String × Nat} (h : r.message? = some key) :
    r.scope = .thread key.1 := by
  unfold Record.message? at h
  split at h
  · rename_i threadId hs
    rw [hs]
    split at h
    · cases h
      rfl
    split at h
    · split at h
      · rcases Runs.taken h with ⟨_, rfl⟩
        rfl
      · cases h
    · cases h
  · cases h

variable {log : List Entry}

theorem message_of_latest {key : String × Nat} {r : Record}
    (h : latestRecord log key = some r) : r.message? = some key := by
  induction log using List.reverseRecOn generalizing r with
  | nil => cases h
  | append_singleton log entry ih =>
    rw [latestRecord_snoc] at h
    cases entry with
    | purge threadId =>
      change (if key.1 = threadId then none else latestRecord log key) = some r at h
      split at h
      · cases h
      · exact ih h
    | event r' =>
      cases hm : r'.message? with
      | none =>
        rw [recallEntry_of_none hm] at h
        exact ih h
      | some k =>
        rw [recallEntry_of_some hm] at h
        by_cases hk : key = k
        · rw [hk, Function.update_self] at h
          cases h
          rw [hm, hk]
        · rw [Function.update_of_ne hk] at h
          exact ih h

variable {db db' : Database}

theorem Remembered.shed (h : Remembered ⟨db, log⟩) (hs : Sheds db db') : Remembered ⟨db', log⟩ := by
  refine ⟨?_, fun e he => h.hashable e (hs.sublist.mem he)⟩
  intro e he key hk
  obtain ⟨e', he', hlatest, hle⟩ := h.latest e (hs.sublist.mem he) key hk
  refine ⟨e', ?_, hlatest, hle⟩
  by_contra hgone
  have hscope : e.scope = e'.scope :=
    (scope_of_message hk).trans (scope_of_message (message_of_latest hlatest)).symm
  have hlt := hs.oldest e' he' hgone e he hscope
  omega

theorem Remembered.purge {threadId : String}
    (h : Remembered ⟨db, log⟩) (hs : Sheds db db') (hempty : eventsOf db' (.thread threadId) = []) :
    Remembered ⟨db', log ++ [.purge threadId]⟩ := by
  have hkept := h.shed hs
  refine ⟨?_, hkept.hashable⟩
  intro e he key hk
  obtain ⟨e', he', hlatest, hle⟩ := hkept.latest e he key hk
  refine ⟨e', he', ?_, hle⟩
  have hother : key.1 ≠ threadId := by
    intro hsame
    have hin : e ∈ eventsOf db' (.thread threadId) :=
      mem_eventsOf.mpr ⟨he, hsame ▸ scope_of_message hk⟩
    rw [hempty] at hin
    cases hin
  rw [latestRecord_snoc]
  change (if key.1 = threadId then none else latestRecord log key) = _
  rw [if_neg hother]
  exact hlatest

variable {env : Environment}

theorem hashable_of_projected {row : EventRow}
    (h : projectEvent env db row = .ok db') (hm : (eventRecord row).message? ≠ none)
    (hr : row.eventType ≠ "message.removed") :
    isUnhashable (Json.field? row.payload "role") = false := by
  unfold projectEvent at h
  split at h
  · rename_i threadId hs
    unfold projectTranscript at h
    obtain ⟨message, hsequence, h⟩ := except_bind_eq_ok.mp h
    have hmessage := messageSequence_spec hsequence hs
    cases message with
    | none => exact absurd hmessage hm
    | some sequence =>
      simp only at h
      rw [if_neg hr, refuse_bind_eq_ok] at h
      simpa using h.1
  · rename_i hs
    cases hk : (eventRecord row).message? with
    | none => exact absurd hk hm
    | some key => exact absurd (scope_of_message hk) (hs key.1)

theorem Remembered.insert {db db' : Database}
    {c : CheckedAppend} (h : Remembered ⟨db, log⟩) (ha : Accounted db)
    (hp : projectEvent env (insertEvent db c) (newEvent db c) = .ok db') :
    Remembered ⟨insertEvent db c, log ++ [.event (eventRecord (newEvent db c))]⟩ := by
  have hevents : (insertEvent db c).events = db.events ++ [newEvent db c] := rfl
  refine ⟨?_, ?_⟩
  · intro e he key hk
    rw [latestRecord_snoc]
    by_cases hnew : (eventRecord (newEvent db c)).message? = some key
    · refine ⟨newEvent db c, ?_, ?_, ?_⟩
      · exact List.mem_append_right _ List.mem_cons_self
      · rw [recallEntry_of_some hnew, Function.update_self]
      · rcases List.mem_append.mp he with he | he
        · exact Nat.le_succ_of_le (ha.ordered.bounded e he)
        · rw [List.mem_singleton.mp he]
    rcases List.mem_append.mp he with he | he
    · obtain ⟨e', he', hlatest, hle⟩ := h.latest e he key hk
      refine ⟨e', List.mem_append_left _ he', ?_, hle⟩
      cases hm : (eventRecord (newEvent db c)).message? with
      | none =>
        rw [recallEntry_of_none hm]
        exact hlatest
      | some k =>
        have hne : key ≠ k := by
          rintro rfl
          exact hnew hm
        rw [recallEntry_of_some hm, Function.update_of_ne hne]
        exact hlatest
    · rw [List.mem_singleton.mp he] at hk
      exact absurd hk hnew
  · intro e he hm hr
    rcases List.mem_append.mp he with he | he
    · exact h.hashable e he hm hr
    · rw [List.mem_singleton.mp he] at hm hr ⊢
      exact hashable_of_projected hp hm hr

theorem Step.remembered {K : Prop} {s t : Store} (ha : Accounted s.db)
    (hi : Remembered s) (h : Step env K s t) : Remembered t := by
  obtain ⟨db', log'⟩ := t
  rcases h.cases_on_log ha with ⟨c, hins, hlog⟩ | ⟨hshed, _, hlog⟩ | ⟨threadId, hshed, _, hempty,
    hlog⟩
  · change log' = _ at hlog
    obtain ⟨projected, hp, _⟩ := hins.projected
    rw [hlog]
    exact (hi.insert ha hp).shed hins.sheds
  · change log' = _ at hlog
    rw [hlog]
    exact hi.shed hshed
  · change log' = _ at hlog
    rw [hlog]
    exact hi.purge hshed hempty

structure Conversational (env : Environment) (s : Store) : Prop where
  sequenced : Sequenced s
  indexed : Indexed env s.db.transcript (viewOf env s.log)
  remembered : Remembered s

theorem Store.run_conversational (env : Environment) (changes : List Change) :
    Conversational env (Store.run env changes) := by
  refine Store.run_invariant (I := Conversational env)
    ⟨sequenced_initial, indexed_initial, remembered_initial⟩ ?_ changes
  intro s t hi h
  have ha := hi.sequenced.accounted
  exact ⟨h.sequenced hi.sequenced, h.indexed ha hi.indexed, h.remembered ha hi.remembered⟩

section

variable {env : Environment} {jsonText : Json → String} {db : Database} {threadId : String}
  {sequence : Nat}

structure Retains (jsonText : Json → String) (e : EventRow) (c : Candidate) : Prop where
  cursor : c.cursor = e.cursor
  role : c.role = jsonExtract jsonText (Json.field? e.payload "role")
  text : c.text = jsonExtract jsonText (Json.field? e.payload "text")
  timestamp : c.timestamp = e.timestamp
  eventType : c.eventType = e.eventType
  retained : c.retained = true

theorem message_of_thread {e : EventRow} (hs : e.scope = .thread threadId) :
    (eventRecord e).message? =
      if e.eventType = "message.created" ∨ e.eventType = "message.completed" then
        some (threadId, e.scopeSequence)
      else if e.eventType = "message.updated" ∨ e.eventType = "message.removed" then
        match (Json.field? e.payload "message_sequence").bind Json.int? with
        | some n => if 1 ≤ n then some (threadId, n.toNat) else none
        | none => none
      else none := by
  cases e with
  | mk cursor operationKey operationId eventId scope =>
    cases hs
    rfl

theorem retainedCandidate_spec {e : EventRow} {c : Candidate} (hs : e.scope = .thread threadId)
    (h : retainedCandidate jsonText e = some c) :
    (eventRecord e).message? = some (threadId, c.sequence) ∧ Retains jsonText e c := by
  rw [message_of_thread hs]
  unfold retainedCandidate at h
  simp only at h
  split at h
  · rename_i hcreated
    cases h
    rw [if_pos hcreated]
    exact ⟨rfl, ⟨rfl, rfl, rfl, rfl, rfl, rfl⟩⟩
  rename_i hcreated
  rw [if_neg hcreated]
  rcases Runs.enabled h with ⟨hupdated, h⟩
  rw [if_pos hupdated]
  split at h
  · rename_i n hn
    rcases Runs.taken h with ⟨hpos, rfl⟩
    have hone : 1 ≤ n := by omega
    rw [hn]
    exact ⟨if_pos hone, ⟨rfl, rfl, rfl, rfl, rfl, rfl⟩⟩
  · cases h

theorem exists_retainedCandidate {e : EventRow}
    (h : (eventRecord e).message? = some (threadId, sequence)) :
    ∃ c, retainedCandidate jsonText e = some c ∧ c.sequence = sequence := by
  have hs := scope_of_message h
  change e.scope = .thread threadId at hs
  rw [message_of_thread hs] at h
  unfold retainedCandidate
  simp only
  split at h
  · rename_i hcreated
    rw [if_pos hcreated]
    cases h
    exact ⟨_, rfl, rfl⟩
  rename_i hcreated
  rw [if_neg hcreated]
  rcases Runs.enabled h with ⟨hupdated, h⟩
  rw [if_pos hupdated]
  cases hf : Json.field? e.payload "message_sequence" with
  | none =>
    rw [hf] at h
    cases h
  | some value =>
    rw [hf] at h
    cases value with
    | int n =>
      change (if 1 ≤ n then some (threadId, n.toNat) else none) = _ at h
      rcases Runs.enabled h with ⟨hpos, h⟩
      cases h
      simp only
      rw [if_pos (by omega)]
      exact ⟨_, rfl, rfl⟩
    | _ => cases h

theorem mem_candidates {c : Candidate} :
    c ∈ candidates jsonText db threadId ↔
      (∃ n row, db.transcript.rows.get? (threadId, n) = some row ∧ c = indexedCandidate n row) ∨
        ∃ e ∈ eventsOf db (.thread threadId), retainedCandidate jsonText e = some c := by
  unfold candidates
  rw [List.mem_append, List.mem_filterMap, List.mem_map]
  refine or_congr_left ?_
  constructor
  · rintro ⟨⟨⟨t, n⟩, row⟩, hin, rfl⟩
    obtain ⟨hm, ht⟩ := List.mem_filter.mp hin
    have hthread : t = threadId := by simpa using ht
    rw [hthread] at hm
    exact ⟨n, row, (db.transcript.rows.get?_eq_some_iff _ row).mpr hm, rfl⟩
  · rintro ⟨n, row, hget, rfl⟩
    have hm := (db.transcript.rows.get?_eq_some_iff _ row).mp hget
    exact ⟨⟨(threadId, n), row⟩, List.mem_filter.mpr ⟨hm, by simp⟩, rfl⟩

theorem head_versionsOf {rows : List Candidate} {c : Candidate} (hc : c ∈ rows)
    (hs : c.sequence = sequence) (hnewest : ∀ b ∈ rows, b.sequence = sequence → Newer b c → b = c) :
    (versionsOf rows sequence).head? = some c := by
  have htotal : Std.Total Newer := by
    refine ⟨fun a b => ?_⟩
    unfold Newer
    rcases lt_trichotomy a.cursor b.cursor with hlt | heq | hgt
    · exact .inr (.inl hlt)
    · cases hb : b.retained with
      | false => exact .inl (.inr ⟨heq.symm, by simp⟩)
      | true => exact .inr (.inr ⟨heq, by simp⟩)
    · exact .inl (.inl hgt)
  have htrans : IsTrans Candidate Newer := by
    refine ⟨fun a b d => ?_⟩
    unfold Newer
    rintro (hab | ⟨hab, ra⟩) (hbd | ⟨hbd, rb⟩)
    · exact .inl (by omega)
    · exact .inl (by omega)
    · exact .inl (by omega)
    · exact .inr ⟨by omega, fun hd => ra (rb hd)⟩
  have hsorted := List.pairwise_insertionSort Newer (rows.filter fun c => c.sequence = sequence)
  have hmem : ∀ b, b ∈ versionsOf rows sequence ↔ b ∈ rows ∧ b.sequence = sequence := by
    intro b
    unfold versionsOf
    rw [List.mem_insertionSort, List.mem_filter]
    simp
  have hin := (hmem c).mpr ⟨hc, hs⟩
  change (versionsOf rows sequence).Pairwise Newer at hsorted
  cases hv : versionsOf rows sequence with
  | nil =>
    rw [hv] at hin
    cases hin
  | cons first rest =>
    rw [hv] at hin hsorted
    rcases List.mem_cons.mp hin with heq | hin
    · rw [heq]
      rfl
    have hfirst := (hmem first).mp (hv ▸ List.mem_cons_self)
    have hnewer := (List.pairwise_cons.mp hsorted).1 c hin
    rw [hnewest first hfirst.1 hfirst.2 hnewer]
    rfl

theorem eq_of_cursor (ha : Accounted db) {e e' : EventRow} (he : e ∈ db.events)
    (he' : e' ∈ db.events) (h : e.cursor = e'.cursor) : e = e' := by
  by_contra hne
  have hpairs : db.events.Pairwise fun a b => a.cursor ≠ b.cursor :=
    ha.ordered.sorted.imp fun hlt => ne_of_lt hlt
  have hsymm : Std.Symm fun a b : EventRow => a.cursor ≠ b.cursor := ⟨fun _ _ => Ne.symm⟩
  exact hpairs.forall he he' hne h

end

/-! ## What is shown of a message -/

def ConversationRow.version (row : ConversationRow) : Version :=
  ⟨row.cursor, row.role, row.text, row.timestamp⟩

/-- A version of the user or the assistant whose text is an array or an object. The view
takes its JSON for a text, where the index has none. -/
def Misread (env : Environment) (jsonText : Json → String) (r : Record) : Prop :=
  r.eventType ≠ "message.removed" ∧
    (∃ role, Json.field? r.payload "role" = some (.str role) ∧
      (role = "user" ∨ role = "assistant")) ∧
    ∃ value, Json.field? r.payload "text" = some value ∧ isUnhashable (some value) = true ∧
      env.mentionsCredential (jsonText value) = false

section

variable {env : Environment} {jsonText : Json → String} {threadId : String} {sequence : Nat}

theorem jsonExtract_eq_text {value : Option Json} {s : String} :
    jsonExtract jsonText value = .text s ↔
      value = some (.str s) ∨
        ∃ j, value = some j ∧ isUnhashable (some j) = true ∧ jsonText j = s := by
  rcases value with _ | (_ | _ | _ | _ | _ | _ | _) <;> simp [jsonExtract, isUnhashable]

theorem searchableText_eq_some {value : SqlValue} {s : String} :
    searchableText env value = some s ↔ value = .text s ∧ env.mentionsCredential s = false := by
  cases value with
  | text t =>
    change (if env.mentionsCredential t then none else some t) = some s ↔ _
    cases ht : env.mentionsCredential t with
    | true =>
      rw [if_pos rfl]
      constructor
      · intro h
        cases h
      · rintro ⟨heq, hclean⟩
        cases heq
        rw [ht] at hclean
        cases hclean
    | false =>
      rw [if_neg Bool.false_ne_true]
      constructor
      · intro h
        cases h
        exact ⟨rfl, ht⟩
      · rintro ⟨heq, _⟩
        cases heq
        rfl
  | _ => simp [searchableText]

theorem visibleRole_eq_some {value : SqlValue} {role : String} :
    visibleRole value = some role ↔ value = .text role ∧ (role = "user" ∨ role = "assistant") := by
  cases value with
  | text t =>
    change (if t = "user" ∨ t = "assistant" then some t else none) = some role ↔ _
    by_cases ht : t = "user" ∨ t = "assistant"
    · rw [if_pos ht]
      constructor
      · intro h
        cases h
        exact ⟨rfl, ht⟩
      · rintro ⟨heq, _⟩
        cases heq
        rfl
    · rw [if_neg ht]
      constructor
      · intro h
        cases h
      · rintro ⟨heq, hrole⟩
        cases heq
        exact absurd hrole ht
  | _ => simp [visibleRole]

theorem shown_eq_some {c : Candidate} {anchor : Option Nat} {row : ConversationRow} :
    c.shown env anchor = some row ↔
      c.eventType ≠ "message.removed" ∧ ∃ role text, c.role = .text role ∧
        (role = "user" ∨ role = "assistant") ∧ c.text = .text text ∧
        env.mentionsCredential text = false ∧
        row = ⟨c.cursor, c.sequence, role, text, c.timestamp, anchor⟩ := by
  unfold Candidate.shown
  constructor
  · intro h
    split at h
    · cases h
    rename_i hr
    split at h
    · rename_i role text hrole htext
      cases h
      obtain ⟨hr1, hr2⟩ := visibleRole_eq_some.mp hrole
      obtain ⟨ht1, ht2⟩ := searchableText_eq_some.mp htext
      exact ⟨hr, role, text, hr1, hr2, ht1, ht2, rfl⟩
    · cases h
  · rintro ⟨hr, role, text, hrole, hvisible, htext, hclean, rfl⟩
    rw [if_neg hr, visibleRole_eq_some.mpr ⟨hrole, hvisible⟩,
      searchableText_eq_some.mpr ⟨htext, hclean⟩]

theorem indexableText_eq_some {value : Option Json} {text : String} :
    indexableText env value = some text ↔
      value = some (.str text) ∧ env.mentionsCredential text = false := by
  constructor
  · intro h
    unfold indexableText at h
    split at h
    · split at h
      · cases h
      rename_i hclean
      cases h
      exact ⟨rfl, by simpa using hclean⟩
    · cases h
  · rintro ⟨rfl, hclean⟩
    unfold indexableText
    simp [hclean]

theorem version_eq_some {r : Record} {v : Version} :
    r.version? env = some v ↔
      r.eventType ≠ "message.removed" ∧ ∃ role text,
        Json.field? r.payload "role" = some (.str role) ∧ (role = "user" ∨ role = "assistant") ∧
        Json.field? r.payload "text" = some (.str text) ∧ env.mentionsCredential text = false ∧
        v = ⟨r.cursor, role, text, r.timestamp⟩ := by
  unfold Record.version?
  constructor
  · intro h
    rcases Option.ite_none_left_eq_some.mp h with ⟨hr, h⟩
    split at h
    · rename_i role text hrole htext
      rcases Runs.taken h with ⟨hvisible, rfl⟩
      obtain ⟨value, hfield, hstr⟩ := Option.bind_eq_some_iff.mp hrole
      have hvalue : value = .str role := by
        cases value with
        | str s =>
          cases hstr
          rfl
        | _ => cases hstr
      obtain ⟨ht, hclean⟩ := indexableText_eq_some.mp htext
      exact ⟨hr, role, text, hvalue ▸ hfield, hvisible, ht, hclean, rfl⟩
    · cases h
  · rintro ⟨hr, role, text, hrole, hvisible, htext, hclean, rfl⟩
    rw [if_neg hr, hrole, indexableText_eq_some.mpr ⟨htext, hclean⟩]
    exact if_pos hvisible

theorem shown_retained {e : EventRow} {c : Candidate} (anchor : Option Nat)
    (hc : Retains jsonText e c)
    (hh : e.eventType ≠ "message.removed" → isUnhashable (Json.field? e.payload "role") = false)
    (hm : ¬ Misread env jsonText (eventRecord e)) :
    (c.shown env anchor).map ConversationRow.version = (eventRecord e).version? env := by
  refine Option.ext fun v => ?_
  rw [Option.map_eq_some_iff, version_eq_some]
  change _ ↔ e.eventType ≠ "message.removed" ∧ ∃ role text,
    Json.field? e.payload "role" = some (.str role) ∧ (role = "user" ∨ role = "assistant") ∧
    Json.field? e.payload "text" = some (.str text) ∧ env.mentionsCredential text = false ∧
    v = ⟨e.cursor, role, text, e.timestamp⟩
  constructor
  · rintro ⟨row, hrow, rfl⟩
    obtain ⟨hr, role, text, hrole, hvisible, htext, hclean, rfl⟩ := shown_eq_some.mp hrow
    rw [hc.eventType] at hr
    rw [hc.role] at hrole
    rw [hc.text] at htext
    have hplain : Json.field? e.payload "role" = some (.str role) := by
      rcases jsonExtract_eq_text.mp hrole with hplain | ⟨j, hj, hcontainer, _⟩
      · exact hplain
      have hhash := hh hr
      rw [hj, hcontainer] at hhash
      cases hhash
    refine ⟨hr, role, text, hplain, hvisible, ?_, hclean, ?_⟩
    · rcases jsonExtract_eq_text.mp htext with hstr | ⟨j, hj, hcontainer, hjson⟩
      · exact hstr
      · exact absurd ⟨hr, ⟨role, hplain, hvisible⟩, j, hj, hcontainer, hjson ▸ hclean⟩ hm
    · rw [← hc.cursor, ← hc.timestamp]
      rfl
  · rintro ⟨hr, role, text, hrole, hvisible, htext, hclean, rfl⟩
    refine ⟨⟨c.cursor, c.sequence, role, text, c.timestamp, anchor⟩, ?_, ?_⟩
    · refine shown_eq_some.mpr ⟨hc.eventType ▸ hr, role, text, ?_, hvisible, ?_, hclean, rfl⟩
      · rw [hc.role, hrole]
        rfl
      · rw [hc.text, htext]
        rfl
    · rw [← hc.cursor, ← hc.timestamp]
      rfl

theorem shown_misread {e : EventRow} {c : Candidate} (anchor : Option Nat)
    (hc : Retains jsonText e c) (hm : Misread env jsonText (eventRecord e)) :
    (∃ row, c.shown env anchor = some row) ∧ (eventRecord e).version? env = none := by
  obtain ⟨hr, ⟨role, hrole, hvisible⟩, j, htext, hcontainer, hclean⟩ := hm
  refine ⟨⟨⟨c.cursor, c.sequence, role, jsonText j, c.timestamp, anchor⟩, ?_⟩, ?_⟩
  · refine shown_eq_some.mpr ⟨hc.eventType ▸ hr, role, jsonText j, ?_, hvisible, ?_, hclean, rfl⟩
    · exact hc.role.trans (jsonExtract_eq_text.mpr (.inl hrole))
    · exact hc.text.trans (jsonExtract_eq_text.mpr (.inr ⟨j, htext, hcontainer, rfl⟩))
  cases hv : (eventRecord e).version? env with
  | none => rfl
  | some v =>
    obtain ⟨_, _, text, _, _, hstr, _⟩ := version_eq_some.mp hv
    rw [htext] at hstr
    cases hstr
    cases hcontainer

theorem indexed_ne_removed : "indexed" ≠ "message.removed" := by decide

theorem shown_indexed {log : List Entry} {n : Nat} {row : TranscriptRow} (anchor : Option Nat)
    (h : viewOf env log (threadId, n) = some row.version) :
    ((indexedCandidate n row).shown env anchor).map ConversationRow.version =
      viewOf env log (threadId, n) := by
  rw [h]
  rw [viewOf_eq_latest] at h
  obtain ⟨r, _, hv⟩ := Option.bind_eq_some_iff.mp h
  obtain ⟨_, role, text, _, hvisible, _, hclean, heq⟩ := version_eq_some.mp hv
  have hrole : row.role = role := congrArg Version.role heq
  have htext : row.text = text := congrArg Version.text heq
  rw [← hrole] at hvisible
  rw [← htext] at hclean
  have hshown : (indexedCandidate n row).shown env anchor =
      some ⟨row.cursor, n, row.role, row.text, row.timestamp, anchor⟩ :=
    shown_eq_some.mpr ⟨indexed_ne_removed, row.role, row.text, rfl, hvisible, rfl, hclean, rfl⟩
  rw [hshown]
  rfl

end

section

variable {env : Environment} {jsonText : Json → String} {s : Store} {threadId : String}
  {sequence : Nat}

def MisreadLatest (env : Environment) (jsonText : Json → String) (db : Database)
    (threadId : String) (sequence : Nat) : Prop :=
  ∃ e ∈ db.events, (eventRecord e).message? = some (threadId, sequence) ∧
    Misread env jsonText (eventRecord e) ∧
    ∀ e' ∈ db.events, (eventRecord e').message? = some (threadId, sequence) → e'.cursor ≤ e.cursor

theorem head_of_latest (h : Conversational env s) {e : EventRow} (he : e ∈ s.db.events)
    (hl : latestRecord s.log (threadId, sequence) = some (eventRecord e)) :
    ∃ c, Retains jsonText e c ∧
      (versionsOf (candidates jsonText s.db threadId) sequence).head? = some c := by
  have hm := message_of_latest hl
  have hs := scope_of_message hm
  obtain ⟨c, hc, hsequence⟩ := exists_retainedCandidate hm
  obtain ⟨_, hretains⟩ := retainedCandidate_spec hs hc
  refine ⟨c, hretains, head_versionsOf ?_ hsequence ?_⟩
  · exact mem_candidates.mpr (.inr ⟨e, mem_eventsOf.mpr ⟨he, hs⟩, hc⟩)
  intro b hb hbs hnewer
  unfold Newer at hnewer
  rw [hretains.cursor, hretains.retained] at hnewer
  rcases mem_candidates.mp hb with ⟨n, row, hget, rfl⟩ | ⟨e', he', hc'⟩
  · -- an indexed row is a version of the same record, and not retained
    have hn : n = sequence := hbs
    rw [hn] at hget
    have hview := h.indexed.shows _ row hget
    rw [viewOf_eq_latest, hl] at hview
    obtain ⟨_, _, _, _, _, _, _, hversion⟩ := version_eq_some.mp hview
    have hcursor : row.cursor = e.cursor := congrArg Version.cursor hversion
    rcases hnewer with hlt | ⟨_, hretained⟩
    · have hgt : e.cursor < row.cursor := hlt
      omega
    · cases hretained rfl
  · obtain ⟨hin, hs'⟩ := mem_eventsOf.mp he'
    obtain ⟨hm', hretains'⟩ := retainedCandidate_spec hs' hc'
    rw [hbs] at hm'
    obtain ⟨latest, _, hlatest, hle⟩ := h.remembered.latest e' hin _ hm'
    rw [hl] at hlatest
    have hcursor : e.cursor = latest.cursor := congrArg Record.cursor (Option.some.inj hlatest)
    rw [hretains'.cursor] at hnewer
    have hsame : e' = e := eq_of_cursor h.sequenced.accounted hin he (by omega)
    rw [hsame, hc] at hc'
    exact (Option.some.inj hc').symm

theorem head_of_indexed {db : Database} {row : TranscriptRow}
    (hget : db.transcript.rows.get? (threadId, sequence) = some row)
    (hnone : ∀ e ∈ db.events, (eventRecord e).message? ≠ some (threadId, sequence)) :
    (versionsOf (candidates jsonText db threadId) sequence).head? =
      some (indexedCandidate sequence row) := by
  refine head_versionsOf (mem_candidates.mpr (.inl ⟨sequence, row, hget, rfl⟩)) rfl ?_
  intro b hb hbs _
  rcases mem_candidates.mp hb with ⟨n, row', hget', rfl⟩ | ⟨e, he, hc⟩
  · have hn : n = sequence := hbs
    rw [hn, hget] at hget'
    rw [hn, Option.some.inj hget']
  obtain ⟨hin, hs⟩ := mem_eventsOf.mp he
  obtain ⟨hm, _⟩ := retainedCandidate_spec hs hc
  rw [hbs] at hm
  exact absurd hm (hnone e hin)

theorem latest_of_retained (h : Conversational env s) {e : EventRow} (he : e ∈ s.db.events)
    (hm : (eventRecord e).message? = some (threadId, sequence))
    (hlast : ∀ e' ∈ s.db.events, (eventRecord e').message? = some (threadId, sequence) →
      e'.cursor ≤ e.cursor) :
    latestRecord s.log (threadId, sequence) = some (eventRecord e) := by
  obtain ⟨latest, hin, hlatest, hle⟩ := h.remembered.latest e he _ hm
  have hge := hlast latest hin (message_of_latest hlatest)
  rw [hlatest, eq_of_cursor h.sequenced.accounted hin he (by omega)]

/-- The row of a message that either source holds is what the log shows of it, unless its
latest retained version is misread. -/
theorem visibleRow_spec (h : Conversational env s)
    (hc : ∃ c ∈ candidates jsonText s.db threadId, c.sequence = sequence) :
    (¬ MisreadLatest env jsonText s.db threadId sequence →
      (visibleRow env (versionsOf (candidates jsonText s.db threadId) sequence)).map
        ConversationRow.version = viewOf env s.log (threadId, sequence)) ∧
      (MisreadLatest env jsonText s.db threadId sequence →
        (∃ row, visibleRow env (versionsOf (candidates jsonText s.db threadId) sequence) =
          some row) ∧ viewOf env s.log (threadId, sequence) = none) := by
  unfold visibleRow
  generalize ((versionsOf (candidates jsonText s.db threadId) sequence).filterMap
    Candidate.anchorCursor).min? = anchor
  refine ⟨fun hnot => ?_, fun hmisread => ?_⟩
  · by_cases hretained : ∃ e ∈ s.db.events, (eventRecord e).message? = some (threadId, sequence)
    · obtain ⟨e₀, he₀, hm₀⟩ := hretained
      obtain ⟨e, he, hlatest, _⟩ := h.remembered.latest e₀ he₀ _ hm₀
      have hm := message_of_latest hlatest
      obtain ⟨c, hretains, hhead⟩ := head_of_latest h he hlatest
      have hlast : ∀ e' ∈ s.db.events,
          (eventRecord e').message? = some (threadId, sequence) → e'.cursor ≤ e.cursor := by
        intro e' he' hm'
        obtain ⟨latest, _, hlatest', hle⟩ := h.remembered.latest e' he' _ hm'
        rw [hlatest] at hlatest'
        have hcursor : e.cursor = latest.cursor :=
          congrArg Record.cursor (Option.some.inj hlatest')
        omega
      have hread : ¬ Misread env jsonText (eventRecord e) := fun hr => hnot ⟨e, he, hm, hr, hlast⟩
      have hhash := h.remembered.hashable e he (by rw [hm]; exact Option.some_ne_none _)
      rw [hhead, viewOf_eq_latest, hlatest]
      exact shown_retained anchor hretains hhash hread
    · have hnone : ∀ e ∈ s.db.events, (eventRecord e).message? ≠ some (threadId, sequence) :=
        fun e he hm => hretained ⟨e, he, hm⟩
      obtain ⟨c, hin, hsequence⟩ := hc
      rcases mem_candidates.mp hin with ⟨n, row, hget, rfl⟩ | ⟨e, he, hcand⟩
      · have hn : n = sequence := hsequence
        rw [hn] at hget
        rw [head_of_indexed hget hnone]
        exact shown_indexed anchor (h.indexed.shows _ row hget)
      · obtain ⟨he, hs⟩ := mem_eventsOf.mp he
        obtain ⟨hm, _⟩ := retainedCandidate_spec hs hcand
        rw [hsequence] at hm
        exact absurd hm (hnone e he)
  · obtain ⟨e, he, hm, hread, hlast⟩ := hmisread
    have hlatest := latest_of_retained h he hm hlast
    obtain ⟨c, hretains, hhead⟩ := head_of_latest h he hlatest
    rw [hhead, viewOf_eq_latest, hlatest]
    exact shown_misread anchor hretains hread

theorem visibleRow_sequence {rows : List Candidate} {row : ConversationRow}
    (h : visibleRow env (versionsOf rows sequence) = some row) :
    (∃ c ∈ rows, c.sequence = sequence) ∧ row.sequence = sequence := by
  unfold visibleRow at h
  obtain ⟨c, hhead, hshown⟩ := Option.bind_eq_some_iff.mp h
  have hin := List.mem_of_head? hhead
  unfold versionsOf at hin
  rw [List.mem_insertionSort, List.mem_filter] at hin
  have hsequence : c.sequence = sequence := by simpa using hin.2
  obtain ⟨_, role, text, _, _, _, _, rfl⟩ := shown_eq_some.mp hshown
  exact ⟨⟨c, hin.1, hsequence⟩, hsequence⟩

theorem mem_visible {db : Database} {row : ConversationRow} :
    row ∈ visible env jsonText db threadId ↔
      visibleRow env (versionsOf (candidates jsonText db threadId) row.sequence) = some row := by
  unfold visible
  simp only
  rw [List.mem_filterMap]
  constructor
  · rintro ⟨n, _, hrow⟩
    rw [(visibleRow_sequence hrow).2]
    exact hrow
  · intro hrow
    obtain ⟨⟨c, hc, hsequence⟩, _⟩ := visibleRow_sequence hrow
    exact ⟨row.sequence, List.mem_dedup.mpr (List.mem_map.mpr ⟨c, hc, hsequence⟩), hrow⟩

theorem visible_nodup (env : Environment) (jsonText : Json → String) (db : Database)
    (threadId : String) :
    ((visible env jsonText db threadId).map ConversationRow.sequence).Nodup := by
  unfold visible
  simp only
  refine List.pairwise_map.mpr ?_
  refine List.Pairwise.filterMap _ ?_ (List.nodup_dedup _)
  intro n m hne a ha b hb heq
  have hn := (visibleRow_sequence ha).2
  have hm := (visibleRow_sequence hb).2
  omega

/-- What is found, from a starting point on. -/
def matchesBelow (env : Environment) (jsonText : Json → String) (casefold : String → String)
    (db : Database) (threadId query : String) (before : Option Nat) : List ConversationRow :=
  ((visible env jsonText db threadId).filter (isMatch casefold query)).filter
    (Paging.isBelow ConversationRow.sequence before)

/-- The pages list the matches below the starting point, each once. -/
theorem flatten_conversationPages (env : Environment) (jsonText : Json → String)
    (casefold : String → String) (db : Database) (threadId query : String)
    (before : Option Nat) {limit fuel : Nat} (hl : 0 < limit)
    (hf : (visible env jsonText db threadId).length < fuel) :
    (conversationPages env jsonText casefold db threadId query before limit fuel).flatten.Perm
      (matchesBelow env jsonText casefold db threadId query before) := by
  let found := (visible env jsonText db threadId).filter (isMatch casefold query)
  have hnodup : (found.map ConversationRow.sequence).Nodup :=
    (visible_nodup env jsonText db threadId).sublist (List.filter_sublist.map _)
  have hlength : ((Paging.listing ConversationRow.sequence found).filter
      (Paging.isBelow ConversationRow.sequence before)).length < fuel := by
    have hfilter := List.length_filter_le (Paging.isBelow ConversationRow.sequence before)
      (Paging.listing ConversationRow.sequence found)
    have hlisting : (Paging.listing ConversationRow.sequence found).length = found.length :=
      List.length_insertionSort _ _
    have hfound : found.length ≤ (visible env jsonText db threadId).length :=
      List.length_filter_le _ _
    omega
  have hpages := Paging.flatten_pages (Paging.pairwise_listing hnodup)
    (f := fun before limit =>
      (searchConversationMessages env jsonText casefold db threadId query before limit).1)
    (fun before n => congrArg (List.take n) (Paging.listing_filter hnodup _)) hl hlength
  unfold conversationPages matchesBelow
  rw [hpages, ← Paging.listing_filter hnodup]
  exact List.perm_insertionSort _ _

end

/-- The view of a thread has one row for each message, shows of each what the log shows,
and its pages list the matches it counts. -/
structure Presents (env : Environment) (jsonText : Json → String) (casefold : String → String)
    (s : Store) (threadId : String) : Prop where
  unique : ((visible env jsonText s.db threadId).map ConversationRow.sequence).Nodup
  current : ∀ row ∈ visible env jsonText s.db threadId,
    viewOf env s.log (threadId, row.sequence) = some row.version
  counted : ∀ query before limit,
    (searchConversationMessages env jsonText casefold s.db threadId query before limit).2 =
      ((visible env jsonText s.db threadId).filter (isMatch casefold query)).length
  paged : ∀ query before limit fuel, 0 < limit →
    (visible env jsonText s.db threadId).length < fuel →
      (conversationPages env jsonText casefold s.db threadId query before limit fuel).flatten.Perm
        (matchesBelow env jsonText casefold s.db threadId query before)

theorem Conversational.presents_iff {s : Store} (h : Conversational env s)
    (jsonText : Json → String) (casefold : String → String) (threadId : String) :
    Presents env jsonText casefold s threadId ↔
      ∀ sequence, ¬ MisreadLatest env jsonText s.db threadId sequence := by
  constructor
  · intro hp sequence hmisread
    obtain ⟨e, he, hm, _⟩ := id hmisread
    have hs := scope_of_message hm
    obtain ⟨c, hc, hsequence⟩ := exists_retainedCandidate hm
    have hin : c ∈ candidates jsonText s.db threadId :=
      mem_candidates.mpr (.inr ⟨e, mem_eventsOf.mpr ⟨he, hs⟩, hc⟩)
    obtain ⟨⟨row, hrow⟩, hnone⟩ := (visibleRow_spec h ⟨c, hin, hsequence⟩).2 hmisread
    have hrowSequence := (visibleRow_sequence hrow).2
    have hvisible : row ∈ visible env jsonText s.db threadId :=
      mem_visible.mpr (hrowSequence.symm ▸ hrow)
    have hcurrent := hp.current row hvisible
    rw [hrowSequence, hnone] at hcurrent
    cases hcurrent
  · intro hnot
    refine ⟨visible_nodup env jsonText s.db threadId, ?_, fun _ _ _ => rfl, ?_⟩
    · intro row hrow
      have hshown := mem_visible.mp hrow
      have hspec := (visibleRow_spec h (visibleRow_sequence hshown).1).1 (hnot row.sequence)
      rw [hshown] at hspec
      exact hspec.symm
    · intro query before limit fuel hl hf
      exact flatten_conversationPages env jsonText casefold s.db threadId query before hl hf

/-- After every run the view of a thread is right just if no latest retained version of a
message is misread, as none is when no event ever journaled is. -/
theorem Store.run_presents_iff (env : Environment) (jsonText : Json → String)
    (casefold : String → String) (changes : List Change) (threadId : String) :
    (Presents env jsonText casefold (Store.run env changes) threadId ↔
        ∀ sequence, ¬ MisreadLatest env jsonText (Store.run env changes).db threadId sequence) ∧
      ((∀ r ∈ journaledEvents (Store.run env changes).log, ¬ Misread env jsonText r) →
        Presents env jsonText casefold (Store.run env changes) threadId) := by
  have h := Store.run_conversational env changes
  have hiff := h.presents_iff jsonText casefold threadId
  refine ⟨hiff, fun hread => hiff.mpr ?_⟩
  rintro sequence ⟨e, he, _, hmisread, _⟩
  exact hread _ (h.sequenced.logged e he) hmisread

def listMessage : Change :=
  .append
    { operationKey := "m"
      scope := "thread"
      threadId := some "t"
      eventType := "message.created"
      payload := .obj [("role", .str "user"), ("text", .arr [.str "a"])]
      timestamp := some "2030-01-01T00:00:00Z"
      operationId := none
      eventId := some "m"
      scopeSequence := none }
    ⟨"", "", false⟩

/-- The list is shown as text, though no version of the message has a text. -/
theorem listMessage_shown :
    ¬ Presents sampleEnvironment (fun _ => "[\"a\"]") id
      (Store.run sampleEnvironment [listMessage]) "t" := by
  intro h
  have hvisible : ⟨1, 1, "user", "[\"a\"]", "2030-01-01T00:00:00Z", some 1⟩ ∈
      visible sampleEnvironment (fun _ => "[\"a\"]")
        (Store.run sampleEnvironment [listMessage]).db "t" := by decide +kernel
  have hnone : viewOf sampleEnvironment (Store.run sampleEnvironment [listMessage]).log
      ("t", 1) = none := by decide +kernel
  have hcurrent := h.current _ hvisible
  rw [hnone] at hcurrent
  cases hcurrent

end CodexBridge.Journal
