import CodexBridge.Journal.Sequences
import CodexBridge.Library.Totals
import CodexBridge.Library.Views

/-! # The transcript index

The index holds the visible text of messages within a quota. Its purpose is the view
of the log: of each message the text its latest version says, if that is visible. The
index shows the view, and covers it while it is complete.
-/

namespace CodexBridge.Journal

open Effect

/-! ## The view of the log -/

def Record.message? (r : Record) : Option (String × Nat) :=
  match r.scope with
  | .thread threadId =>
    if r.eventType = "message.created" ∨ r.eventType = "message.completed" then
      some (threadId, r.scopeSequence)
    else if r.eventType = "message.updated" ∨ r.eventType = "message.removed" then
      match (Json.field? r.payload "message_sequence").bind Json.int? with
      | some n => if 1 ≤ n then some (threadId, n.toNat) else none
      | none => none
    else none
  | _ => none

structure Version where
  cursor : Nat
  role : String
  text : String
  timestamp : String

def Record.version? (env : Environment) (r : Record) : Option Version :=
  if r.eventType = "message.removed" then none
  else
    match (Json.field? r.payload "role").bind Json.str?,
      indexableText env (Json.field? r.payload "text") with
    | some role, some text =>
      if role = "user" ∨ role = "assistant" then some ⟨r.cursor, role, text, r.timestamp⟩
      else none
    | _, _ => none

def observe (env : Environment) (view : String × Nat → Option Version) :
    Entry → String × Nat → Option Version
  | .event r =>
    match r.message? with
    | some key => Function.update view key (r.version? env)
    | none => view
  | .purge threadId => fun key => if key.1 = threadId then none else view key

theorem observe_of_none {env : Environment} {view : String × Nat → Option Version} {r : Record}
    (h : r.message? = none) : observe env view (.event r) = view := by
  unfold observe
  simp only [h]

theorem observe_of_some {env : Environment} {view : String × Nat → Option Version} {r : Record}
    {key : String × Nat} (h : r.message? = some key) :
    observe env view (.event r) = Function.update view key (r.version? env) := by
  unfold observe
  simp only [h]

def viewOf (env : Environment) (log : List Entry) : String × Nat → Option Version :=
  log.foldl (observe env) fun _ => none

theorem viewOf_append (env : Environment) (log more : List Entry) :
    viewOf env (log ++ more) = more.foldl (observe env) (viewOf env log) :=
  List.foldl_append

def TranscriptRow.version (row : TranscriptRow) : Version :=
  ⟨row.cursor, row.role, row.text, row.timestamp⟩

def textLength (row : TranscriptRow) : Nat := PyText.utf8Length row.text

def Transcript.textBytes (t : Transcript) : Nat := (t.rows.values.map textLength).sum

/-- The counter is exact, the limits hold, and the index shows the view, all of it while
it is complete. -/
structure Indexed (env : Environment) (t : Transcript)
    (view : String × Nat → Option Version) : Prop where
  counted : t.usedBytes = t.textBytes
  light : t.usedBytes ≤ env.maxTranscriptBytes
  few : t.rows.entries.length ≤ env.maxTranscriptMessages
  shows : t.rows.Shows TranscriptRow.version view
  covers : t.complete = true → t.rows.Covers TranscriptRow.version view

def weight (rows : Dict (String × Nat) TranscriptRow) : Int :=
  rows.total fun _ row => (textLength row : Int)

theorem textBytes_eq (t : Transcript) : (t.textBytes : Int) = weight t.rows := by
  unfold Transcript.textBytes weight Dict.total Dict.values
  induction t.rows.entries with
  | nil => rfl
  | cons e rest ih =>
    simp only [List.map_cons, List.sum_cons] at ih ⊢
    omega

theorem weight_nonneg (rows : Dict (String × Nat) TranscriptRow) : 0 ≤ weight rows :=
  Dict.total_nonneg fun _ _ _ => Int.natCast_nonneg _

section

variable {env : Environment} {t : Transcript} {view : String × Nat → Option Version}
  {key : String × Nat}

variable (rows : Dict (String × Nat) TranscriptRow)

theorem weight_erase (key : String × Nat) :
    weight (rows.erase key) = weight rows - (match rows.get? key with
      | some row => (textLength row : Int)
      | none => 0) := by
  unfold weight
  cases h : rows.get? key with
  | none =>
    rw [Dict.total_erase_of_none h]
    simp
  | some row => exact Dict.total_erase h _

theorem bytesOf_eq (t : Transcript) (key : String × Nat) :
    (t.bytesOf key : Int) = weight t.rows - weight (t.rows.erase key) := by
  rw [weight_erase]
  unfold Transcript.bytesOf
  cases t.rows.get? key with
  | none => simp
  | some row =>
    change (textLength row : Int) = _
    simp

theorem discard_counted (h : t.usedBytes = t.textBytes) (key : String × Nat) :
    (t.discard key).usedBytes = (t.discard key).textBytes := by
  have hbytes := bytesOf_eq t key
  have htotal := textBytes_eq t
  have hafter := textBytes_eq (t.discard key)
  have hrest := weight_nonneg (t.rows.erase key)
  change (t.usedBytes - t.bytesOf key) = _
  change _ = weight (t.rows.erase key) at hafter
  omega

theorem length_erase_le (key : String × Nat) :
    (rows.erase key).entries.length ≤ rows.entries.length :=
  List.length_filter_le _ _

theorem Indexed.discard (h : Indexed env t view) (key : String × Nat) :
    Indexed env (t.discard key) (Function.update view key none) := by
  refine ⟨discard_counted h.counted key, ?_, ?_, h.shows.erase key, fun hc =>
    (h.covers hc).erase key⟩
  · exact le_trans (Nat.sub_le _ _) h.light
  · exact le_trans (length_erase_le _ _) h.few

/-! ## Making room -/

theorem erase_erase (a b : String × Nat) : (rows.erase a).erase b = (rows.erase b).erase a := by
  unfold Dict.erase Dict.filter
  simp only [Dict.mk.injEq]
  rw [List.filter_filter, List.filter_filter]
  exact List.filter_congr fun e _ => Bool.and_comm _ _

theorem length_erase_lt {rows : Dict (String × Nat) TranscriptRow} {key : String × Nat}
    {row : TranscriptRow} (h : rows.get? key = some row) :
    (rows.erase key).entries.length + 1 = rows.entries.length := by
  have hone := Dict.total_erase h fun _ _ => 1
  rw [Dict.total_one, Dict.total_one] at hone
  omega

theorem length_erase_of_none {rows : Dict (String × Nat) TranscriptRow} {key : String × Nat}
    (h : rows.get? key = none) : (rows.erase key).entries.length = rows.entries.length := by
  have hone := Dict.total_erase_of_none h fun _ _ => 1
  rw [Dict.total_one, Dict.total_one] at hone
  omega

theorem oldestOther_spec {t : Transcript} {key old : String × Nat} {row : TranscriptRow}
    (h : t.oldestOther key = some (old, row)) :
    old ≠ key ∧ t.rows.get? old = some row := by
  unfold Transcript.oldestOther at h
  have hm := (List.mem_insertionSort _).mp (List.mem_of_head? h)
  obtain ⟨hin, hne⟩ := List.mem_filter.mp hm
  exact ⟨by simpa using hne, (t.rows.get?_eq_some_iff old row).mpr hin⟩

theorem oldestOther_none {t : Transcript} {key : String × Nat} (h : t.oldestOther key = none) :
    (t.rows.erase key).entries = [] := by
  unfold Transcript.oldestOther at h
  rw [List.head?_eq_none_iff] at h
  have hlength := congrArg List.length h
  rw [List.length_insertionSort, List.length_nil] at hlength
  exact List.length_eq_zero_iff.mp hlength

/-- The message itself takes part in the limits with one row and its new text. -/
def Fits (env : Environment) (textBytes : Nat) (existing : Bool) (t : Transcript) : Prop :=
  t.usedBytes + textBytes ≤ env.maxTranscriptBytes ∧
    t.rows.entries.length + (if existing then 0 else 1) ≤ env.maxTranscriptMessages

theorem fits_alone {textBytes : Nat} (hroom : textBytes ≤ env.maxTranscriptBytes)
    (hused : (t.usedBytes : Int) = weight (t.rows.erase key))
    (hnone : (t.rows.erase key).entries = []) :
    Fits env textBytes (t.rows.contains key) t := by
  have hweight : weight (t.rows.erase key) = 0 := by
    unfold weight Dict.total
    rw [hnone]
    rfl
  have hmessages := env.messages
  refine ⟨by omega, ?_⟩
  cases hk : t.rows.get? key with
  | none =>
    have hlength := length_erase_of_none hk
    rw [hnone, List.length_nil] at hlength
    have hcontains : t.rows.contains key = false := by
      unfold Dict.contains
      rw [hk]
      rfl
    simp only [hcontains, ← hlength, Bool.false_eq_true, if_false]
    omega
  | some row =>
    have hlength := length_erase_lt hk
    rw [hnone, List.length_nil] at hlength
    have hcontains : t.rows.contains key = true := (t.rows.contains_iff key).mpr ⟨row, hk⟩
    simp only [hcontains, ← hlength, if_true]
    omega

/-- Making room forgets other messages until the new one fits, and says so. -/
structure Roomy (env : Environment) (key : String × Nat) (textBytes : Nat)
    (view : String × Nat → Option Version) (t room : Transcript) : Prop where
  counted : (room.usedBytes : Int) = weight (room.rows.erase key)
  fits : Fits env textBytes (t.rows.contains key) room
  own : room.rows.get? key = t.rows.get? key
  shows : room.rows.Shows TranscriptRow.version view
  covers : room.complete = true → t.complete = true ∧ room.rows = t.rows

theorem makeRoom_spec {textBytes : Nat} (hroom : textBytes ≤ env.maxTranscriptBytes)
    (hshows : t.rows.Shows TranscriptRow.version view)
    (hused : (t.usedBytes : Int) = weight (t.rows.erase key)) {fuel : Nat}
    (hfuel : (t.rows.erase key).entries.length ≤ fuel) :
    Roomy env key textBytes view t
      (Transcript.makeRoom env key textBytes (t.rows.contains key) fuel t) := by
  induction fuel generalizing t with
  | zero =>
    have hnone := List.length_eq_zero_iff.mp (Nat.le_zero.mp hfuel)
    exact ⟨hused, fits_alone hroom hused hnone, rfl, hshows, fun hc => ⟨hc, rfl⟩⟩
  | succ fuel ih =>
    unfold Transcript.makeRoom
    by_cases hfull : t.usedBytes + textBytes > env.maxTranscriptBytes ∨
        t.rows.entries.length + (if t.rows.contains key then 0 else 1) > env.maxTranscriptMessages
    · rw [if_pos hfull]
      cases hold : t.oldestOther key with
      | none =>
        have hfits := fits_alone hroom hused (oldestOther_none hold)
        unfold Fits at hfits
        exact absurd hfull (by omega)
      | some entry =>
        obtain ⟨old, row⟩ := entry
        obtain ⟨hne, hget⟩ := oldestOther_spec hold
        let next : Transcript :=
          ⟨t.rows.erase old, t.usedBytes - PyText.utf8Length row.text, false⟩
        have hothers : (t.rows.erase key).get? old = some row := by
          rw [Dict.get?_erase, if_neg hne]
          exact hget
        have hown : (t.rows.erase old).get? key = t.rows.get? key := by
          rw [Dict.get?_erase, if_neg (Ne.symm hne)]
        have hcontains : next.rows.contains key = t.rows.contains key := by
          unfold Dict.contains
          rw [hown]
        have hnext : (next.usedBytes : Int) = weight (next.rows.erase key) := by
          have hweight := weight_erase (t.rows.erase key) old
          rw [hothers, erase_erase] at hweight
          have hnonneg := weight_nonneg ((t.rows.erase old).erase key)
          change ((t.usedBytes - textLength row : Nat) : Int) =
            weight ((t.rows.erase old).erase key)
          simp only at hweight
          omega
        have hlength : (next.rows.erase key).entries.length ≤ fuel := by
          have hlt := length_erase_lt hothers
          rw [erase_erase] at hlt
          change ((t.rows.erase old).erase key).entries.length ≤ fuel
          omega
        have hrest := ih (t := next) (hshows.forget old) hnext hlength
        rw [hcontains] at hrest
        exact ⟨hrest.counted, hcontains ▸ hrest.fits, hrest.own.trans hown, hrest.shows,
          fun hc => absurd (hrest.covers hc).1 Bool.false_ne_true⟩
    · rw [if_neg hfull]
      obtain ⟨hbytes, hrows⟩ := not_or.mp hfull
      exact ⟨hused, ⟨by omega, by omega⟩, rfl, hshows, fun hc => ⟨hc, rfl⟩⟩

theorem length_set (key : String × Nat) (row : TranscriptRow) :
    (rows.set key row).entries.length =
      rows.entries.length + (if rows.contains key then 0 else 1) := by
  have hone := Dict.total_set rows key row fun _ _ => 1
  rw [Dict.total_one, Dict.total_one] at hone
  cases hk : rows.get? key with
  | none =>
    have hlength := length_erase_of_none hk
    have hcontains : rows.contains key = false := by
      unfold Dict.contains
      rw [hk]
      rfl
    simp only [hcontains, Bool.false_eq_true, if_false]
    omega
  | some old =>
    have hlength := length_erase_lt hk
    have hcontains : rows.contains key = true := (rows.contains_iff key).mpr ⟨old, hk⟩
    simp only [hcontains, if_true]
    omega

theorem Indexed.store (h : Indexed env t view) (key : String × Nat) (row : TranscriptRow) :
    Indexed env (t.store env key row) (Function.update view key (some row.version)) := by
  unfold Transcript.store
  simp only
  by_cases hlarge : PyText.utf8Length row.text > env.maxTranscriptBytes
  · rw [if_pos hlarge]
    have hdiscard := h.discard key
    refine ⟨hdiscard.counted, hdiscard.light, hdiscard.few, ?_, fun hc =>
      absurd hc Bool.false_ne_true⟩
    intro k' row' hget
    have hne : k' ≠ key := by
      rintro rfl
      change (t.rows.erase k').get? k' = some row' at hget
      rw [Dict.get?_erase, if_pos rfl] at hget
      cases hget
    have hview := hdiscard.shows k' row' hget
    rw [Function.update_of_ne hne] at hview ⊢
    exact hview
  · rw [if_neg hlarge]
    let start : Transcript := { t with usedBytes := t.usedBytes - t.bytesOf key }
    have hstart : (start.usedBytes : Int) = weight (start.rows.erase key) := by
      have hbytes := bytesOf_eq t key
      have htotal := textBytes_eq t
      have hcounted := h.counted
      have hrest := weight_nonneg (t.rows.erase key)
      change ((t.usedBytes - t.bytesOf key : Nat) : Int) = weight (t.rows.erase key)
      omega
    have hroom := makeRoom_spec (t := start) (not_lt.mp hlarge) h.shows hstart
      (length_erase_le start.rows key)
    change Roomy env key (PyText.utf8Length row.text) view start
      (Transcript.makeRoom env key (PyText.utf8Length row.text) (t.rows.contains key)
        t.rows.entries.length start) at hroom
    generalize Transcript.makeRoom env key (PyText.utf8Length row.text) (t.rows.contains key)
      t.rows.entries.length start = room at hroom ⊢
    have hcontains : room.rows.contains key = start.rows.contains key := by
      unfold Dict.contains
      rw [hroom.own]
    refine ⟨?_, hroom.fits.1, ?_, hroom.shows.set key row, ?_⟩
    · have hset := Dict.total_set room.rows key row fun _ row => (textLength row : Int)
      have htotal := textBytes_eq ⟨room.rows.set key row,
        room.usedBytes + PyText.utf8Length row.text, room.complete⟩
      have hcounted := hroom.counted
      change weight (room.rows.set key row) = weight (room.rows.erase key) +
        (PyText.utf8Length row.text : Int) at hset
      change room.usedBytes + PyText.utf8Length row.text = _
      simp only at htotal
      omega
    · rw [length_set, hcontains]
      exact hroom.fits.2
    · intro hc
      obtain ⟨hcomplete, hrows⟩ := hroom.covers hc
      change Dict.Covers (Dict.set _ key row) _ _
      rw [hrows]
      exact (h.covers hcomplete).set key row

theorem Indexed.dropThread (h : Indexed env t view) (threadId : String) :
    Indexed env (t.dropThread threadId)
      (fun key => if key.1 = threadId then none else view key) := by
  have hview : (fun key : String × Nat => if key.1 = threadId then none else view key) =
      fun key => if decide (key.1 ≠ threadId) = true then view key else none := by
    funext key
    by_cases hk : key.1 = threadId
    · simp [hk]
    · simp [hk]
  have hfilter := Dict.total_filter t.rows (fun k _ => decide (k.1 ≠ threadId))
    fun _ row => (textLength row : Int)
  have htotal := textBytes_eq t
  have hafter := textBytes_eq (t.dropThread threadId)
  have hgone : ((t.rows.entries.filter fun e => !decide (e.1.1 ≠ threadId)).map
      fun e => (textLength e.2 : Int)).sum =
      (((t.rows.entries.filter fun e => e.1.1 = threadId).map fun e =>
        PyText.utf8Length e.2.text).sum : Nat) := by
    have hsame : (t.rows.entries.filter fun e => !decide (e.1.1 ≠ threadId)) =
        t.rows.entries.filter fun e => e.1.1 = threadId :=
      List.filter_congr fun e _ => by simp
    rw [hsame]
    induction t.rows.entries.filter fun e => e.1.1 = threadId with
    | nil => rfl
    | cons e rest ih =>
      simp only [List.map_cons, List.sum_cons, ih]
      rfl
  have hrest := weight_nonneg (t.rows.filter fun k _ => decide (k.1 ≠ threadId))
  change weight (t.rows.filter fun k _ => decide (k.1 ≠ threadId)) = weight t.rows - _ at hfilter
  change _ = weight (t.rows.filter fun k _ => decide (k.1 ≠ threadId)) at hafter
  rw [hgone] at hfilter
  have hcounted := h.counted
  rw [hview]
  refine ⟨?_, ?_, ?_, h.shows.filter _, fun hc => (h.covers hc).filter _⟩
  · change t.usedBytes - _ = _
    omega
  · exact le_trans (Nat.sub_le _ _) h.light
  · exact le_trans (List.length_filter_le _ _) h.few

theorem messageSequence_spec {row : EventRow} {message : Option Nat}
    (h : messageSequence row = .ok message) {threadId : String}
    (hs : row.scope = .thread threadId) :
    (eventRecord row).message? = message.map fun sequence => (threadId, sequence) := by
  unfold messageSequence at h
  unfold Record.message?
  change (match row.scope with
    | .thread threadId => _
    | _ => none) = _
  rw [hs]
  change (if row.eventType = "message.created" ∨ row.eventType = "message.completed" then
    some (threadId, row.scopeSequence) else _) = _
  split at h
  · rename_i hcreated
    cases h
    rw [if_pos hcreated]
    rfl
  rename_i hcreated
  rw [if_neg hcreated]
  split at h
  · rename_i hupdated
    change (if row.eventType = "message.updated" ∨ row.eventType = "message.removed" then
      match (Json.field? row.payload "message_sequence").bind Json.int? with
      | some n => if 1 ≤ n then some (threadId, n.toNat) else none
      | none => none
      else none) = _
    rw [if_pos hupdated]
    cases hn : (Json.field? row.payload "message_sequence").bind Json.int? with
    | none =>
      rw [hn] at h
      cases h
      rfl
    | some n =>
      rw [hn] at h
      simp only at h ⊢
      split at h
      · rename_i hpos
        split at h
        · cases h
          rw [if_pos hpos]
          rfl
        · cases h
      · rename_i hpos
        cases h
        rw [if_neg hpos]
        rfl
  · rename_i hupdated
    cases h
    exact if_neg hupdated

theorem projectTranscript_indexed {db db' : Database} {threadId : String} {row : EventRow}
    (h : Indexed env db.transcript view) (hs : row.scope = .thread threadId)
    (hp : projectTranscript env db threadId row = .ok db') :
    Indexed env db'.transcript (observe env view (.event (eventRecord row))) := by
  unfold projectTranscript at hp
  obtain ⟨message, hm, hp⟩ := except_bind_eq_ok.mp hp
  have hmessage := messageSequence_spec hm hs
  cases message with
  | none =>
    cases hp
    rw [observe_of_none hmessage]
    exact h
  | some sequence =>
    rw [observe_of_some hmessage]
    simp only at hp
    unfold Record.version?
    change Indexed env db'.transcript (Function.update view (threadId, sequence)
      (if row.eventType = "message.removed" then none
        else match (Json.field? row.payload "role").bind Json.str?,
          indexableText env (Json.field? row.payload "text") with
        | some role, some text =>
          if role = "user" ∨ role = "assistant" then
            some ⟨row.cursor, role, text, row.timestamp⟩
          else none
        | _, _ => none))
    split at hp
    · rename_i hremoved
      cases hp
      rw [if_pos hremoved]
      exact h.discard _
    rename_i hremoved
    rw [refuse_bind_eq_ok] at hp
    obtain ⟨_, hp⟩ := hp
    rw [if_neg hremoved]
    cases hrole : (Json.field? row.payload "role").bind Json.str? with
    | none =>
      simp only [hrole] at hp ⊢
      cases hp
      exact h.discard _
    | some role =>
      cases htext : indexableText env (Json.field? row.payload "text") with
      | none =>
        simp only [hrole, htext] at hp ⊢
        cases hp
        exact h.discard _
      | some text =>
        simp only [hrole, htext] at hp ⊢
        split at hp
        · rename_i hvisible
          cases hp
          rw [if_pos hvisible]
          exact h.store (threadId, sequence) _
        · rename_i hvisible
          cases hp
          rw [if_neg hvisible]
          exact h.discard _

theorem projectEvent_indexed {db db' : Database} {row : EventRow}
    (h : Indexed env db.transcript view) (hp : projectEvent env db row = .ok db') :
    Indexed env db'.transcript (observe env view (.event (eventRecord row))) := by
  unfold projectEvent at hp
  split at hp
  · rename_i threadId hs
    obtain ⟨lifecycle, hl⟩ := projectLifecycle_edit db threadId row
    rw [hl] at hp
    refine projectTranscript_indexed ?_ hs hp
    exact h
  rename_i hs
  cases hp
  have hnone : (eventRecord row).message? = none := by
    unfold Record.message?
    split
    · rename_i threadId hthread
      exact absurd hthread (hs threadId)
    · rfl
  rw [observe_of_none hnone]
  exact h

end

section

variable {env : Environment}

theorem indexed_initial :
    Indexed env Store.initial.db.transcript (viewOf env Store.initial.log) where
  counted := rfl
  light := Nat.zero_le _
  few := Nat.zero_le _
  shows _ _ h := by cases h
  covers _ _ := rfl

theorem Step.indexed {K : Prop} {s t : Store} (ha : Accounted s.db)
    (hi : Indexed env s.db.transcript (viewOf env s.log)) (h : Step env K s t) :
    Indexed env t.db.transcript (viewOf env t.log) := by
  rcases h.cases_on_log ha with ⟨c, hins, hlog⟩ | ⟨_, htranscript, hlog⟩ |
    ⟨threadId, _, htranscript, _, hlog⟩
  · obtain ⟨projected, hp, htranscript⟩ := hins.projected
    rw [hlog, htranscript, viewOf_append]
    refine projectEvent_indexed ?_ hp
    exact hi
  · rw [hlog, htranscript]
    exact hi
  · rw [hlog, htranscript, viewOf_append]
    exact hi.dropThread threadId

/-- The index of a store is in line with its log after every run, from a new store or
from any other whose index is. -/
theorem Store.run_indexed (env : Environment) (changes : List Change) :
    Indexed env (Store.run env changes).db.transcript (viewOf env (Store.run env changes).log) ∧
      ∀ s : Store, Accounted s.db → Indexed env s.db.transcript (viewOf env s.log) →
        Indexed env (changes.foldl (Change.perform env) s).db.transcript
          (viewOf env (changes.foldl (Change.perform env) s).log) := by
  have hfrom : ∀ s : Store, Accounted s.db → Indexed env s.db.transcript (viewOf env s.log) →
      Indexed env (changes.foldl (Change.perform env) s).db.transcript
        (viewOf env (changes.foldl (Change.perform env) s).log) := by
    intro s ha hi
    have hboth : Accounted (changes.foldl (Change.perform env) s).db ∧
        Indexed env (changes.foldl (Change.perform env) s).db.transcript
          (viewOf env (changes.foldl (Change.perform env) s).log) := by
      induction changes generalizing s with
      | nil => exact ⟨ha, hi⟩
      | cons change rest ih =>
        have hstep := (change.perform_steps env s).keeps
          (I := fun t => Accounted t.db ∧ Indexed env t.db.transcript (viewOf env t.log))
          (fun _ _ ht h => ⟨h.accounted ht.1, h.indexed ht.1 ht.2⟩) ⟨ha, hi⟩
        exact ih _ hstep.1 hstep.2
    exact hboth.2
  exact ⟨hfrom .initial accounted_empty indexed_initial, hfrom⟩

end

end CodexBridge.Journal
