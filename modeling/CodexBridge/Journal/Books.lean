import CodexBridge.Journal.Ledger
import CodexBridge.Library.Records

/-! # The books of the outbox

What the dedupe tables say about the operations prepared so far. The key of an
operation's event names the operation, so its ledger row belongs to the operation
as long as nobody else uses such keys; a finalization then inserts every event.
-/

namespace CodexBridge.Journal

open Effect

/-! ## Outbox keys -/

theorem outboxKey_toList (id : String) (i : Nat) :
    (outboxKey id i).toList = "outbox:".toList ++ (id.toList ++ ':' :: Nat.toDigits 10 i) := by
  unfold outboxKey
  simp only [String.toList_append, Nat.toString_eq_ofList_toDigits, String.toList_ofList,
    List.append_assoc]
  rfl

theorem colon_not_mem_toDigits (i : Nat) : ':' ∉ (Nat.toDigits 10 i).reverse := by
  intro h
  have hd := Nat.isDigit_of_mem_toDigits (by omega) (by omega) (List.mem_reverse.mp h)
  exact absurd hd (by decide)

theorem outboxKey_inj {id id' : String} {i i' : Nat} (h : outboxKey id i = outboxKey id' i') :
    id = id' ∧ i = i' := by
  have hlist := congrArg String.toList h
  rw [outboxKey_toList, outboxKey_toList] at hlist
  have hrev := congrArg List.reverse (List.append_cancel_left hlist)
  simp only [List.reverse_append, List.reverse_cons, List.append_assoc, List.singleton_append]
    at hrev
  obtain ⟨hdigits, hid⟩ := Records.split_at_separator (colon_not_mem_toDigits i)
    (colon_not_mem_toDigits i') hrev
  refine ⟨String.toList_inj.mp (List.reverse_injective hid), ?_⟩
  have hnat := congrArg (fun ds => Nat.ofDigitChars 10 ds 0) (List.reverse_injective hdigits)
  simpa only [Nat.ofDigitChars_toDigits (by omega : 1 < 10) (by omega : 10 ≤ 10)] using hnat

/-- `operation_key.startswith("outbox:")`. -/
def isOutboxKey (key : String) : Bool := "outbox:".toList.isPrefixOf key.toList

theorem isOutboxKey_outboxKey (id : String) (i : Nat) : isOutboxKey (outboxKey id i) = true := by
  unfold isOutboxKey
  rw [outboxKey_toList, List.isPrefixOf_iff_prefix]
  exact List.prefix_append _ _

def WellKeyed (e : Envelope) : Prop :=
  e.events.map EnvelopeEvent.operationKey =
    (List.range e.events.length).map (outboxKey e.operationId)

theorem encodeDrafts_keys {env : Environment} {id : String} {now : Nat → String} {index : Nat}
    {drafts : List EventDraft} {events : List EnvelopeEvent}
    (h : encodeDrafts env id now index drafts = .ok events) :
    events.map EnvelopeEvent.operationKey =
      (List.range' index events.length).map (outboxKey id) := by
  induction drafts generalizing index events with
  | nil =>
    cases h
    rfl
  | cons draft rest ih =>
    unfold encodeDrafts at h
    obtain ⟨scope, _, h⟩ := except_bind_eq_ok.mp h
    obtain ⟨eventType, _, h⟩ := except_bind_eq_ok.mp h
    obtain ⟨payload, _, h⟩ := except_bind_eq_ok.mp h
    obtain ⟨encoded, hrest, h⟩ := except_bind_eq_ok.mp h
    cases h
    rw [List.map_cons, List.length_cons, List.range'_succ, List.map_cons, ih hrest]

theorem encodeDrafts_length {env : Environment} {id : String} {now : Nat → String} {index : Nat}
    {drafts : List EventDraft} {events : List EnvelopeEvent}
    (h : encodeDrafts env id now index drafts = .ok events) : events.length = drafts.length := by
  induction drafts generalizing index events with
  | nil =>
    cases h
    rfl
  | cons draft rest ih =>
    unfold encodeDrafts at h
    obtain ⟨scope, _, h⟩ := except_bind_eq_ok.mp h
    obtain ⟨eventType, _, h⟩ := except_bind_eq_ok.mp h
    obtain ⟨payload, _, h⟩ := except_bind_eq_ok.mp h
    obtain ⟨encoded, hrest, h⟩ := except_bind_eq_ok.mp h
    cases h
    rw [List.length_cons, List.length_cons, ih hrest]

def Prints (env : Environment) (fingerprint : String) (e : Envelope) : Prop :=
  ∃ stamps : List (Option String), stamps.length = e.events.length ∧
    fingerprint = env.sha256 (.operation e.operationId e.writes
      ((e.events.map fun event => { event with timestamp := "" }).zip stamps))

theorem checkOperation_spec {env : Environment} {operation : Operation} {now : Nat → String}
    {fingerprint : String} {e : Envelope}
    (h : checkOperation env operation now = .ok (fingerprint, e)) :
    WellKeyed e ∧ e.operationId = operation.operationId ∧ Prints env fingerprint e := by
  obtain ⟨hprint, hid, _, hevents⟩ := checkOperation_eq_ok h
  rw [← hid] at hevents
  refine ⟨?_, hid, operation.events.map EventDraft.timestamp, ?_, hprint⟩
  · unfold WellKeyed
    rw [List.range_eq_range']
    exact encodeDrafts_keys hevents
  · rw [List.length_map, encodeDrafts_length hevents]

theorem WellKeyed.mem {e : Envelope} (h : WellKeyed e) {event : EnvelopeEvent}
    (he : event ∈ e.events) : ∃ i, event.operationKey = outboxKey e.operationId i := by
  have hm := List.mem_map_of_mem (f := EnvelopeEvent.operationKey) he
  rw [h] at hm
  obtain ⟨i, _, hi⟩ := List.mem_map.mp hm
  exact ⟨i, hi.symm⟩

theorem WellKeyed.nodup {e : Envelope} (h : WellKeyed e) :
    (e.events.map EnvelopeEvent.operationKey).Nodup := by
  rw [h]
  exact List.nodup_range.map fun _ _ hij => (outboxKey_inj hij).2

def Filed (db : Database) : Prop :=
  ∀ id i row, db.ledger.get? (outboxKey id i) = some row →
    row.operationId = some id ∧ ∃ operation, db.outbox.get? id = some operation

section

variable {env : Environment} {A : AppendRequest → Prop} {db db' : Database}
  {added : List Insertion}

/-- `U` tells which pending operations an append may speak for. -/
theorem Edit.filed {U : String → Prop} (hA : ∀ r, A r → ∀ id i, r.operationKey = outboxKey id i →
      r.operationId = some id ∧ U id) (hopen : ∀ id, U id → ∃ row, db.outbox.get? id = some row)
    (hi : Filed db) (h : Edit env A db added db') : Filed db' := by
  cases h with
  | @insert request draws c admitted checked fresh unexpired free =>
    obtain ⟨hkey, hid, _⟩ := checkAppend_spec checked
    intro id i row hrow
    rw [insertEvent_ledger] at hrow
    split at hrow
    · rename_i hsame
      cases hrow
      obtain ⟨hop, huse⟩ := hA request admitted id i (hkey.symm.trans hsame.symm)
      exact ⟨hid.trans hop, hopen id huse⟩
    · exact hi id i row hrow
  | project => exact hi
  | evict => exact hi
  | prune pruned =>
    obtain ⟨tombstones, legacy, rfl, _⟩ := prune_spec pruned
    intro id i row hrow
    obtain ⟨hop, operation, hget⟩ := hi id i row (prunedLedger_get?.mp hrow).1
    refine ⟨hop, operation, prunedOutbox_get?.mpr ⟨hget, fun hexp => ?_⟩⟩
    obtain ⟨_, _, _, hnone⟩ := expiredOperations_spec hexp
    exact hnone _ _ hrow hop

end

section

variable {env : Environment} {isFull : String → Bool} {db db' : Database}

theorem insertionsOf_cons (id : String) (event : EnvelopeEvent) (rest : List EnvelopeEvent)
    (record : Record) (inserted : Bool) (results : List (Record × Bool)) :
    insertionsOf id (event :: rest) ((record, inserted) :: results) =
      (if inserted then [⟨eventRequest id event, record⟩] else []) ++
        insertionsOf id rest results := by
  cases inserted with
  | true => rfl
  | false => rfl

theorem append_free {id : String} {event : EnvelopeEvent} {draws : Draws} {record : Record}
    {inserted : Bool} (hfree : db.ledger.get? event.operationKey = none)
    (h : append env db (eventRequest id event) draws = .ok (record, inserted, db')) :
    inserted = true ∧ ∀ key, key ≠ event.operationKey → db.ledger.get? key = none →
      db'.ledger.get? key = none := by
  obtain ⟨c, hc, ⟨row, hrow, _⟩ | ⟨_, _, hins, hedits⟩⟩ :=
    append_cases (A := fun _ => True) trivial h
  · rw [(checkAppend_spec hc).1] at hrow
    change db.ledger.get? event.operationKey = some row at hrow
    rw [hfree] at hrow
    cases hrow
  refine ⟨hins, ?_⟩
  intro key hne hnone
  by_contra hsome
  obtain ⟨row, hrow⟩ := Option.ne_none_iff_exists'.mp hsome
  rcases hedits.leaves.rows _ row hrow with hold | ⟨i, hi, hkey, _⟩
  · rw [hnone] at hold
    cases hold
  · rw [List.mem_singleton.mp hi] at hkey
    exact hne hkey.symm

theorem append_free_rest {id : String} {event : EnvelopeEvent} {rest : List EnvelopeEvent}
    {draws : Draws} {record : Record} {inserted : Bool}
    (hfree : ∀ e ∈ event :: rest, db.ledger.get? e.operationKey = none)
    (hnodup : ((event :: rest).map EnvelopeEvent.operationKey).Nodup)
    (h : append env db (eventRequest id event) draws = .ok (record, inserted, db')) :
    inserted = true ∧ (∀ e ∈ rest, db'.ledger.get? e.operationKey = none) ∧
      (rest.map EnvelopeEvent.operationKey).Nodup := by
  obtain ⟨hhead, htail⟩ := List.nodup_cons.mp (List.map_cons ▸ hnodup)
  obtain ⟨hins, hothers⟩ := append_free (hfree event List.mem_cons_self) h
  refine ⟨hins, ?_, htail⟩
  intro e he
  refine hothers e.operationKey ?_ (hfree e (List.mem_cons_of_mem event he))
  intro hsame
  have hm := List.mem_map_of_mem (f := EnvelopeEvent.operationKey) he
  rw [hsame] at hm
  exact hhead hm

theorem appendEvents_inserted {id : String} {events : List EnvelopeEvent}
    {results : List (Record × Bool)}
    (hfree : ∀ event ∈ events, db.ledger.get? event.operationKey = none)
    (hnodup : (events.map EnvelopeEvent.operationKey).Nodup)
    (h : appendEvents env id isFull events db = .ok (results, db')) :
    (insertionsOf id events results).map Insertion.request = events.map (eventRequest id) := by
  induction events generalizing db results with
  | nil =>
    cases h
    rfl
  | cons event rest ih =>
    unfold appendEvents at h
    obtain ⟨⟨record, inserted, next⟩, hfirst, h⟩ := except_bind_eq_ok.mp h
    obtain ⟨⟨records, last⟩, hrest, h⟩ := except_bind_eq_ok.mp h
    cases h
    obtain ⟨hins, hfree', htail⟩ := append_free_rest hfree hnodup hfirst
    subst hins
    rw [insertionsOf_cons, List.map_append, ih hfree' htail hrest]
    rfl

end

/-- What the tables know of the operations prepared so far. An operation keeps its row
or leaves a tombstone, and an applied row vouches for the ledger rows of all its events. -/
structure Books (env : Environment) (prepared : List Envelope) (db : Database) : Prop where
  recorded : Recorded db
  filed : Filed db
  keyed : ∀ e ∈ prepared, WellKeyed e
  taken : ∀ e ∈ prepared, TakenId env db e.operationId
  distinct : (prepared.map Envelope.operationId).Nodup
  known : ∀ id row, db.outbox.get? id = some row → ∃ e ∈ prepared, e.operationId = id ∧
    (∀ p, row.pending = some p → p = e) ∧ row.hasEvents = !e.events.isEmpty ∧
      Prints env row.fingerprint e
  complete : ∀ id row, db.outbox.get? id = some row → row.pending = none →
    ∀ e ∈ prepared, e.operationId = id →
      ∀ event ∈ e.events, ∃ r, db.ledger.get? event.operationKey = some r

def Quiet (db : Database) : Prop :=
  ∀ id, isPending db id = true → ∀ i, db.ledger.get? (outboxKey id i) = none

section

variable {env : Environment} {A : AppendRequest → Prop} {prepared : List Envelope}
  {db db' : Database} {added : List Insertion}

theorem Books.unique (hb : Books env prepared db) {e e' : Envelope} (he : e ∈ prepared)
    (he' : e' ∈ prepared) (h : e.operationId = e'.operationId) : e = e' :=
  List.inj_on_of_nodup_map hb.distinct he he' h

variable {e : Envelope}

theorem Books.prune_complete (hb : Books env prepared db) {id : String} {row : OutboxRow}
    (hrow : db.outbox.get? id = some row) (hp : row.pending = none)
    (hkept : id ∉ expiredOperations env db) (he : e ∈ prepared)
    (hid : e.operationId = id) {event : EnvelopeEvent} (hev : event ∈ e.events) :
    event.operationKey ∉ expiredKeys env db := by
  intro hexp
  obtain ⟨i, hkey⟩ := (hb.keyed e he).mem hev
  obtain ⟨r, hr⟩ := hb.complete id row hrow hp e he hid event hev
  have hop : r.operationId = some id := by
    have hr' := hr
    rw [hkey, hid] at hr'
    exact (hb.filed id i r hr').1
  obtain ⟨e', he', hid', _, hhas, _⟩ := hb.known id row hrow
  have hsame := hb.unique he' he (hid'.trans hid.symm)
  subst hsame
  obtain ⟨r₀, hr₀, horphan, _⟩ := expiredKeys_group hexp
  rw [hr] at hr₀
  cases hr₀
  have hnoevent : hasEventOf db id = false := by
    unfold isOrphan at horphan
    rw [hop] at horphan
    simp only [Bool.and_eq_true, Bool.not_eq_true'] at horphan
    exact horphan.2.1
  refine hkept (mem_expiredOperations hrow hp ?_ hnoevent ?_)
  · rw [hhas]
    cases hevents : e'.events with
    | nil =>
      rw [hevents] at hev
      cases hev
    | cons _ _ => rfl
  · -- all rows of the operation went together
    intro k r' hr' hop'
    obtain ⟨hget', hstay⟩ := prunedLedger_get?.mp hr'
    exact hstay (pruned_all_or_none hb.recorded hr hop hget' hop' hexp)

theorem Books.edit {U : String → Prop} (hA : ∀ r, A r → ∀ id i, r.operationKey = outboxKey id i →
      r.operationId = some id ∧ U id) (hopen : ∀ id, U id → ∃ row, db.outbox.get? id = some row)
    (hb : Books env prepared db) (h : Edit env A db added db') : Books env prepared db' where
  recorded := h.recorded hb.recorded
  filed := h.filed hA hopen hb.filed
  keyed := hb.keyed
  taken e he := h.leaves.takenIds _ (hb.taken e he)
  distinct := hb.distinct
  known id row hrow := hb.known id row (h.leaves.operations id row hrow)
  complete id row hrow hp e he hid event hev := by
    have hold := h.leaves.operations id row hrow
    obtain ⟨r, hr⟩ := hb.complete id row hold hp e he hid event hev
    cases h with
    | insert =>
      rw [insertEvent_ledger]
      split
      · exact ⟨_, rfl⟩
      · exact ⟨r, hr⟩
    | project => exact ⟨r, hr⟩
    | evict => exact ⟨r, hr⟩
    | prune pruned =>
      obtain ⟨tombstones, legacy, rfl, _⟩ := prune_spec pruned
      have hkept := (prunedOutbox_get?.mp hrow).2
      exact ⟨r, prunedLedger_get?.mpr ⟨hr, hb.prune_complete hold hp hkept he hid hev⟩⟩

theorem Books.edits {U : String → Prop} (hA : ∀ r, A r → ∀ id i, r.operationKey = outboxKey id i →
      r.operationId = some id ∧ U id) (hopen : ∀ id, U id → isPending db id = true)
    (hb : Books env prepared db) (h : Edits env A db added db') : Books env prepared db' := by
  have hboth := h.keeps
    (I := fun db => Books env prepared db ∧ ∀ id, U id → isPending db id = true)
    (fun _ _ _ hi edit => by
      refine ⟨hi.1.edit hA (fun id hu => ?_) edit, fun id hu => edit.leaves.isPending (hi.2 id hu)⟩
      obtain ⟨row, hrow, _⟩ := isPending_iff.mp (hi.2 id hu)
      exact ⟨row, hrow⟩)
    ⟨hb, hopen⟩
  exact hboth.1

theorem Quiet.edits (hA : ∀ r, A r → isOutboxKey r.operationKey = false) (hq : Quiet db)
    (h : Edits env A db added db') : Quiet db' := by
  intro id hp i
  by_contra hsome
  obtain ⟨row, hrow⟩ := Option.ne_none_iff_exists'.mp hsome
  obtain ⟨operation, hget, hne⟩ := isPending_iff.mp hp
  rcases h.leaves.rows _ row hrow with hold | ⟨j, hj, hkey, _⟩
  · have hpend := isPending_iff.mpr ⟨operation, h.leaves.operations id operation hget, hne⟩
    rw [hq id hpend i] at hold
    cases hold
  · have hout := hA _ (h.admitted j hj)
    rw [hkey, isOutboxKey_outboxKey] at hout
    cases hout

/-! ## The two transactions of an operation -/

theorem insertPending_get? (fingerprint : String) (e : Envelope) (id : String) :
    (insertPending db fingerprint e).outbox.get? id =
      if id = e.operationId then some ⟨fingerprint, some e, !e.events.isEmpty⟩
      else db.outbox.get? id :=
  Dict.get?_set _ _ _ _

theorem Books.prepare {fingerprint : String} (hb : Books env prepared db)
    (hq : Quiet db) (hkeyed : WellKeyed e) (hprint : Prints env fingerprint e)
    (hnone : db.outbox.get? e.operationId = none)
    (hunexpired : outboxTombstoneKey env e.operationId ∉ db.tombstones) :
    Books env (prepared ++ [e]) (insertPending db fingerprint e) ∧
      Quiet (insertPending db fingerprint e) := by
  have hfresh : ∀ e' ∈ prepared, e'.operationId ≠ e.operationId := by
    intro e' he' hsame
    rcases hb.taken e' he' with ⟨row, hrow⟩ | ht
    · rw [hsame, hnone] at hrow
      cases hrow
    · exact hunexpired (hsame ▸ ht)
  refine ⟨⟨hb.recorded, ?_, ?_, ?_, ?_, ?_, ?_⟩, ?_⟩
  · intro id i row hrow
    obtain ⟨hop, operation, hget⟩ := hb.filed id i row hrow
    refine ⟨hop, ?_⟩
    rw [insertPending_get?]
    split
    · exact ⟨_, rfl⟩
    · exact ⟨operation, hget⟩
  · intro e' he'
    rcases List.mem_append.mp he' with he' | he'
    · exact hb.keyed e' he'
    · rwa [List.mem_singleton.mp he']
  · intro e' he'
    rcases List.mem_append.mp he' with he' | he'
    · rcases hb.taken e' he' with ⟨row, hrow⟩ | ht
      · refine .inl ⟨row, ?_⟩
        rw [insertPending_get?, if_neg (hfresh e' he')]
        exact hrow
      · exact .inr ht
    · rw [List.mem_singleton.mp he']
      exact .inl ⟨_, by rw [insertPending_get?, if_pos rfl]⟩
  · rw [List.map_append]
    refine List.nodup_append.mpr ⟨hb.distinct, List.nodup_singleton _, ?_⟩
    rintro a ha b hb' rfl
    obtain ⟨e', he', hsame⟩ := List.mem_map.mp ha
    rw [List.map_singleton, List.mem_singleton] at hb'
    exact hfresh e' he' (hsame.trans hb')
  · intro id row hrow
    rw [insertPending_get?] at hrow
    split at hrow
    · rename_i hid
      cases hrow
      refine ⟨e, List.mem_append_right _ List.mem_cons_self, hid.symm, ?_, rfl, hprint⟩
      intro p hp
      cases hp
      rfl
    · obtain ⟨e', he', hrest⟩ := hb.known id row hrow
      exact ⟨e', List.mem_append_left _ he', hrest⟩
  · intro id row hrow hp e' he' hid event hev
    rw [insertPending_get?] at hrow
    split at hrow
    · cases hrow
      cases hp
    rename_i hne
    rcases List.mem_append.mp he' with he' | he'
    · exact hb.complete id row hrow hp e' he' hid event hev
    · rw [List.mem_singleton.mp he'] at hid
      exact absurd hid.symm hne
  · intro id hp i
    by_contra hsome
    obtain ⟨row, hrow⟩ := Option.ne_none_iff_exists'.mp hsome
    obtain ⟨_, operation, hget⟩ := hb.filed id i row hrow
    by_cases hid : id = e.operationId
    · rw [hid, hnone] at hget
      cases hget
    obtain ⟨row', hrow', hne⟩ := isPending_iff.mp hp
    rw [insertPending_get?, if_neg hid] at hrow'
    have hnorow := hq id (isPending_iff.mpr ⟨row', hrow', hne⟩) i
    exact hsome hnorow

theorem markApplied_get? (id id' : String) :
    (markApplied db id).outbox.get? id' =
      if id' = id then (db.outbox.get? id').map fun row => { row with pending := none }
      else db.outbox.get? id' :=
  Dict.get?_update _ _ _ _

theorem Books.markApplied (hb : Books env prepared db) (he : e ∈ prepared)
    (hall : ∀ event ∈ e.events, ∃ r, db.ledger.get? event.operationKey = some r) :
    Books env prepared (markApplied db e.operationId) := by
  have hback : ∀ id row, (Journal.markApplied db e.operationId).outbox.get? id = some row →
      ∃ old, db.outbox.get? id = some old ∧ row.fingerprint = old.fingerprint ∧
        row.hasEvents = old.hasEvents ∧ (∀ p, row.pending = some p → old.pending = some p) ∧
        (row.pending = none → id = e.operationId ∨ old.pending = none) := by
    intro id row hrow
    rw [markApplied_get?] at hrow
    split at hrow
    · rename_i hid
      obtain ⟨old, hold, rfl⟩ := Option.map_eq_some_iff.mp hrow
      refine ⟨old, hold, rfl, rfl, ?_, fun _ => .inl hid⟩
      intro p hp
      cases hp
    · exact ⟨row, hrow, rfl, rfl, fun p hp => hp, .inr⟩
  have hforth : ∀ id row, db.outbox.get? id = some row →
      ∃ new, (Journal.markApplied db e.operationId).outbox.get? id = some new := by
    intro id row hrow
    rw [markApplied_get?, hrow]
    split
    · exact ⟨_, rfl⟩
    · exact ⟨_, rfl⟩
  refine ⟨hb.recorded, ?_, hb.keyed, ?_, hb.distinct, ?_, ?_⟩
  · intro id i row hrow
    obtain ⟨hop, operation, hget⟩ := hb.filed id i row hrow
    exact ⟨hop, hforth id operation hget⟩
  · intro e' he'
    rcases hb.taken e' he' with ⟨row, hrow⟩ | ht
    · exact .inl (hforth _ row hrow)
    · exact .inr ht
  · intro id row hrow
    obtain ⟨old, hold, hfp, hhas, hpend, _⟩ := hback id row hrow
    obtain ⟨e', he', hid, hp, hhas', hprint⟩ := hb.known id old hold
    exact ⟨e', he', hid, fun p hp' => hp p (hpend p hp'), hhas.trans hhas', hfp ▸ hprint⟩
  · intro id row hrow hp e' he' hid event hev
    obtain ⟨old, hold, _, _, _, happ⟩ := hback id row hrow
    rcases happ hp with hsame | hold'
    · have heq := hb.unique he' he (hid.trans hsame)
      subst heq
      exact hall event hev
    · exact hb.complete id old hold hold' e' he' hid event hev

theorem eventRequest_using (hkeyed : WellKeyed e) :
    ∀ r, (∃ event ∈ e.events, r = eventRequest e.operationId event) → ∀ id i,
      r.operationKey = outboxKey id i → r.operationId = some id ∧ id = e.operationId := by
  rintro r ⟨event, hev, rfl⟩ id i hkey
  obtain ⟨j, hj⟩ := hkeyed.mem hev
  have hid := (outboxKey_inj (hkey.symm.trans hj)).1
  exact ⟨congrArg some hid.symm, hid⟩

theorem Books.finalize {isFull : String → Bool} {results : List (Record × Bool)}
    (hb : Books env prepared db) (hq : Quiet db) (he : e ∈ prepared)
    (hp : isPending db e.operationId = true) (h : finalize env isFull db e = .ok (results, db')) :
    Books env prepared db' ∧ Quiet db' ∧
      (insertionsOf e.operationId e.events results).map Insertion.request =
        e.events.map (eventRequest e.operationId) := by
  obtain ⟨appended, _, happend, hprune⟩ := finalize_spec h
  have hkeyed := hb.keyed e he
  have hfree : ∀ event ∈ e.events, db.ledger.get? event.operationKey = none := by
    intro event hev
    obtain ⟨i, hi⟩ := hkeyed.mem hev
    rw [hi]
    exact hq _ hp i
  have hrequests := appendEvents_inserted hfree hkeyed.nodup happend
  have hedits := appendEvents_edits
    (A := fun r => ∃ event ∈ e.events, r = eventRequest e.operationId event)
    (fun event hev => ⟨event, hev, rfl⟩) happend
  have hleaves := hedits.leaves
  have hbooks := hb.edits (eventRequest_using hkeyed) (fun id hid => hid ▸ hp) hedits
  have hall : ∀ event ∈ e.events, ∃ r, appended.ledger.get? event.operationKey = some r := by
    intro event hev
    have hm := List.mem_map_of_mem (f := eventRequest e.operationId) hev
    rw [← hrequests] at hm
    obtain ⟨i, hi, hreq⟩ := List.mem_map.mp hm
    obtain ⟨row, hrow, _⟩ := hleaves.heldNew i hi e.operationId (by rw [hreq]; rfl) hp
    rw [hreq] at hrow
    exact ⟨row, hrow⟩
  have hmarked := hbooks.markApplied he hall
  refine ⟨hmarked.edit (A := fun _ => False) (U := fun _ => False) (fun _ hf => hf.elim)
    (fun _ hf => hf.elim) (Edit.prune hprune), ?_, hrequests⟩
  -- rows under the keys of another pending operation would be older
  intro id hpend i
  by_contra hsome
  obtain ⟨row, hrow⟩ := Option.ne_none_iff_exists'.mp hsome
  have hpruneLeaves := (Edit.prune (A := fun _ => False) hprune).leaves
  obtain ⟨operation, hget, hne⟩ := isPending_iff.mp hpend
  have hget' := hpruneLeaves.operations id operation hget
  rw [markApplied_get?] at hget'
  split at hget'
  · obtain ⟨old, _, rfl⟩ := Option.map_eq_some_iff.mp hget'
    exact hne rfl
  rename_i hother
  have hold := hleaves.operations id operation hget'
  rcases hpruneLeaves.rows _ row hrow with hrow | ⟨_, hm, _⟩
  · rcases hleaves.rows _ row hrow with hrow | ⟨j, hj, hkey, _⟩
    · rw [hq id (isPending_iff.mpr ⟨operation, hold, hne⟩) i] at hrow
      cases hrow
    have hm := List.mem_map_of_mem (f := Insertion.request) hj
    rw [hrequests] at hm
    obtain ⟨event, hev, hreq⟩ := List.mem_map.mp hm
    rw [← hreq] at hkey
    exact hother (eventRequest_using hkeyed _ ⟨event, hev, rfl⟩ id i hkey).2
  · cases hm

theorem finalize_leaves {isFull : String → Bool} {results : List (Record × Bool)}
    (h : Journal.finalize env isFull db e = .ok (results, db')) :
    ∃ appended, Leaves env db (insertionsOf e.operationId e.events results) appended ∧
      Leaves env (Journal.markApplied appended e.operationId) [] db' := by
  obtain ⟨appended, _, happend, hprune⟩ := finalize_spec h
  exact ⟨appended, (appendEvents_edits (A := fun _ => True) (fun _ _ => trivial) happend).leaves,
    (Edit.prune (A := fun _ => True) hprune).leaves⟩

end

/-- What the tables know of the events inserted so far: every key stays taken, and a
ledger row repeats the insertion under its key. -/
structure History (env : Environment) (journaled : List Insertion) (db : Database) : Prop where
  made : ∀ i ∈ journaled, Made i
  distinct : (journaled.map fun i => i.request.operationKey).Nodup
  taken : ∀ i ∈ journaled, Taken env db i.request.operationKey
  rows : ∀ k row, db.ledger.get? k = some row → ∃ i ∈ journaled, i.request.operationKey = k ∧
    ∃ content, i.request.content = .ok content ∧ row = insertedRow (env.sha256 content) i.record
  cursors : journaled.map (fun i => i.record.cursor) = List.range' 1 db.lastCursor
  events : ∀ e ∈ db.events, ∃ i ∈ journaled, i.record = eventRecord e

section

variable {env : Environment} {journaled added : List Insertion} {db db' : Database}

theorem History.leaves (hh : History env journaled db) (h : Leaves env db added db') :
    History env (journaled ++ added) db' where
  made i hi := by
    rcases List.mem_append.mp hi with hi | hi
    · exact hh.made i hi
    · exact h.made i hi
  distinct := by
    rw [List.map_append]
    refine List.nodup_append.mpr ⟨hh.distinct, h.distinct, ?_⟩
    rintro a ha b hb rfl
    obtain ⟨i, hi, rfl⟩ := List.mem_map.mp ha
    obtain ⟨j, hj, hsame⟩ := List.mem_map.mp hb
    exact h.fresh j hj (hsame ▸ hh.taken i hi)
  taken i hi := by
    rcases List.mem_append.mp hi with hi | hi
    · exact h.taken _ (hh.taken i hi)
    · exact h.inserted i hi
  rows k row hrow := by
    rcases h.rows k row hrow with hold | ⟨i, hi, hrest⟩
    · obtain ⟨i, hi, hrest⟩ := hh.rows k row hold
      exact ⟨i, List.mem_append_left _ hi, hrest⟩
    · exact ⟨i, List.mem_append_right _ hi, hrest⟩
  cursors := by
    have hlength := congrArg List.length hh.cursors
    rw [List.length_map, List.length_range'] at hlength
    rw [List.map_append, hh.cursors, h.cursors, h.last, Nat.add_comm db.lastCursor 1,
      List.range'_append_1]
  events e he := by
    rcases h.events e he with hold | ⟨i, hi, hrest⟩
    · obtain ⟨i, hi, hrest⟩ := hh.events e hold
      exact ⟨i, List.mem_append_left _ hi, hrest⟩
    · exact ⟨i, List.mem_append_right _ hi, hrest⟩

theorem History.of_eq (hh : History env journaled db) (hl : db'.ledger = db.ledger)
    (ht : db'.tombstones = db.tombstones) (hc : db'.lastCursor = db.lastCursor)
    (he : db'.events = db.events) : History env journaled db' where
  made := hh.made
  distinct := hh.distinct
  taken i hi := by
    have hold := hh.taken i hi
    unfold Taken at hold ⊢
    rwa [hl, ht]
  rows k row hrow := hh.rows k row (hl ▸ hrow)
  cursors := by
    rw [hc]
    exact hh.cursors
  events e hm := hh.events e (he ▸ hm)

theorem History.finalize {isFull : String → Bool} {e : Envelope} {results : List (Record × Bool)}
    (hh : History env journaled db) (h : finalize env isFull db e = .ok (results, db')) :
    History env (journaled ++ insertionsOf e.operationId e.events results) db' := by
  obtain ⟨appended, hfirst, hlast⟩ := finalize_leaves h
  have hmid : History env (journaled ++ insertionsOf e.operationId e.events results)
      (markApplied appended e.operationId) :=
    (hh.leaves hfirst).of_eq rfl rfl rfl rfl
  have hend := hmid.leaves hlast
  rwa [List.append_nil] at hend

theorem history_empty (env : Environment) : History env [] .empty where
  made i hi := by cases hi
  distinct := List.nodup_nil
  taken i hi := by cases hi
  rows k row hrow := by cases hrow
  cursors := rfl
  events e he := by cases he

theorem books_empty (env : Environment) : Books env [] .empty ∧ Quiet .empty := by
  refine ⟨⟨?_, ?_, ?_, ?_, List.nodup_nil, ?_, ?_⟩, ?_⟩
  · intro e he
    cases he
  · intro id i row hrow
    cases hrow
  · intro e he
    cases he
  · intro e he
    cases he
  · intro id row hrow
    cases hrow
  · intro id row hrow
    cases hrow
  · intro id hp
    cases hp

end

end CodexBridge.Journal
