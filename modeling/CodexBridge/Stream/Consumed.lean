import CodexBridge.Journal.Ledger
import CodexBridge.Journal.Origins
import CodexBridge.Journal.Retention
import CodexBridge.Stream.Payload

/-! # The Integration accepts the pages of the journal

Two validators meet: what the journal takes as an event, and what the Integration reads. Of all
that the Integration checks, only the characters of identifiers and types can fail, and texts of
messages where the journal allows payloads longer than they may be.
-/

namespace CodexBridge.Stream

/-! ## Payloads -/

section

variable {reader : Reader}

mutual

/-- Where no text of a message is expected, everything is cut to size. -/
theorem safePayload_isSome (depth budget : Nat) :
    ∀ value, (safePayload reader false depth budget value).isSome = true
  | .null | .bool _ | .int _ | .float _ => by
      unfold safePayload
      split <;> rfl
  | .str s => by
      unfold safePayload
      split <;> rfl
  | .obj fields => by
      unfold safePayload
      split
      · rfl
      · rw [Option.isSome_map, Bool.false_and]
        exact safeFields_isSome _ _ _ _ fields
  | .arr items => by
      unfold safePayload
      split
      · rfl
      · rw [Option.isSome_map]
        exact safeItems_isSome _ _ _ items

theorem safeFields_isSome (depth count budget : Nat) (taken : List (String × Json)) :
    ∀ fields, (safeFields reader false depth count budget taken fields).isSome = true
  | [] => by
      unfold safeFields
      rfl
  | (key, value) :: rest => by
      have hvalue := safePayload_isSome depth budget value
      unfold safeFields
      cases count with
      | zero => rfl
      | succ count =>
        rw [Bool.false_and]
        cases hkept : safePayload reader false depth budget value with
        | none =>
          rw [hkept] at hvalue
          cases hvalue
        | some kept => exact safeFields_isSome _ _ _ _ rest

theorem safeItems_isSome (depth count budget : Nat) :
    ∀ items, (safeItems reader depth count budget items).isSome = true
  | [] => by
      unfold safeItems
      rfl
  | item :: rest => by
      have hitem := safePayload_isSome depth budget item
      unfold safeItems
      cases count with
      | zero => rfl
      | succ count =>
        cases hkept : safePayload reader false depth budget item with
        | none =>
          rw [hkept] at hitem
          cases hitem
        | some kept =>
          dsimp only
          rw [Option.isSome_map]
          exact safeItems_isSome _ _ _ rest

end

def ShortTexts (fields : List (String × Json)) : Prop :=
  ∀ f ∈ fields, isMessageTextKey f.1 = true → ∀ s, f.2 = .str s →
    PyText.utf8Length s ≤ maxMessageTextBytes

theorem safePayload_text {depth budget : Nat} (hdepth : depth ≠ 0) {value : Json}
    (h : ∀ s, value = .str s → PyText.utf8Length s ≤ maxMessageTextBytes) :
    (safePayload reader true depth budget value).isSome = true := by
  unfold safePayload
  split
  · rfl
  cases value with
  | null | bool b | int n | float literal => rfl
  | str s =>
    dsimp only
    rw [if_pos rfl, if_neg (Nat.not_lt.mpr (h s rfl))]
    rfl
  | obj fields =>
    dsimp only
    rw [Option.isSome_map, decide_eq_false hdepth, Bool.and_false]
    exact safeFields_isSome _ _ _ _ fields
  | arr items =>
    dsimp only
    rw [Option.isSome_map]
    exact safeItems_isSome _ _ _ items

theorem safeFields_text {depth count budget : Nat} (hdepth : depth ≠ 0)
    {taken fields : List (String × Json)} (h : ShortTexts fields) :
    (safeFields reader true depth count budget taken fields).isSome = true := by
  induction fields generalizing count budget taken with
  | nil =>
    unfold safeFields
    rfl
  | cons f rest ih =>
    obtain ⟨key, value⟩ := f
    have hvalue : (safePayload reader (isMessageTextKey key) depth budget value).isSome =
        true := by
      cases hkey : isMessageTextKey key with
      | false => exact safePayload_isSome _ _ value
      | true => exact safePayload_text hdepth (h _ List.mem_cons_self hkey)
    unfold safeFields
    cases count with
    | zero => rfl
    | succ count =>
      rw [Bool.true_and]
      cases hkept : safePayload reader (isMessageTextKey key) depth budget value with
      | none =>
        rw [hkept] at hvalue
        cases hvalue
      | some kept => exact ih fun g hg => h g (List.mem_cons_of_mem _ hg)

theorem readPayload_isSome {scope : EventScope} {eventType : String} {fields : List (String × Json)}
    (h : scope = .thread → eventType ∈ messageTextEvents → ShortTexts fields) :
    (readPayload reader scope eventType (.obj fields)).isSome = true := by
  unfold readPayload
  rw [Option.isSome_map]
  cases hmessage : (decide (scope = .thread) && messageTextEvents.contains eventType) with
  | false => exact safePayload_isSome _ _ _
  | true =>
    rw [Bool.and_eq_true, decide_eq_true_eq, List.contains_iff_mem] at hmessage
    unfold safePayload
    rw [if_neg (by decide)]
    dsimp only
    rw [Option.isSome_map]
    exact safeFields_text (by decide) (h hmessage.1 hmessage.2)

/-! ## Redacted payloads -/

mutual

/-- How deep the calls of `redact` on a value are nested. -/
def nesting : Json → Nat
  | .obj fields => nestingFields fields + 1
  | .arr items => nestingItems items + 1
  | _ => 1

def nestingFields : List (String × Json) → Nat
  | [] => 0
  | (key, value) :: rest =>
    if key ∈ privateBrowserFields then nestingFields rest
    else max (nesting value) (nestingFields rest)

def nestingItems : List Json → Nat
  | [] => 0
  | item :: rest => max (nesting item) (nestingItems rest)

end

mutual

theorem redact_isSome (room : Nat) :
    ∀ value, (redact room value).isSome = true ↔ nesting value ≤ room
  | .null | .bool _ | .int _ | .float _ | .str _ => by
      cases room with
      | zero => simp [redact, nesting]
      | succ room => simp [redact, nesting]
  | .obj fields => by
      cases room with
      | zero => simp [redact, nesting]
      | succ room =>
        unfold redact nesting
        rw [Option.isSome_map, redactFields_isSome room fields, Nat.add_le_add_iff_right]
  | .arr items => by
      cases room with
      | zero => simp [redact, nesting]
      | succ room =>
        unfold redact nesting
        rw [Option.isSome_map, redactItems_isSome room items, Nat.add_le_add_iff_right]

theorem redactFields_isSome (room : Nat) :
    ∀ fields, (redactFields room fields).isSome = true ↔ nestingFields fields ≤ room
  | [] => by simp [redactFields, nestingFields]
  | (key, value) :: rest => by
      unfold redactFields nestingFields
      split
      · exact redactFields_isSome room rest
      rw [max_le_iff, ← redact_isSome room value, ← redactFields_isSome room rest]
      cases redact room value with
      | none => simp
      | some kept => simp

theorem redactItems_isSome (room : Nat) :
    ∀ items, (redactItems room items).isSome = true ↔ nestingItems items ≤ room
  | [] => by simp [redactItems, nestingItems]
  | item :: rest => by
      unfold redactItems nestingItems
      rw [max_le_iff, ← redact_isSome room item, ← redactItems_isSome room rest]
      cases redact room item with
      | none => simp
      | some kept => simp

end

theorem nestingFields_le {fields : List (String × Json)} {n : Nat} :
    nestingFields fields ≤ n ↔
      ∀ f ∈ fields, f.1 ∉ privateBrowserFields → nesting f.2 ≤ n := by
  induction fields with
  | nil => simp [nestingFields]
  | cons f rest ih =>
    unfold nestingFields
    rw [List.forall_mem_cons, ← ih]
    split
    · rename_i hprivate
      exact ⟨fun h => ⟨fun hnot => absurd hprivate hnot, h⟩, And.right⟩
    · rename_i hpublic
      rw [max_le_iff]
      exact ⟨fun h => ⟨fun _ => h.1, h.2⟩, fun h => ⟨h.1 hpublic, h.2⟩⟩

mutual

theorem nesting_sorted : ∀ value : Json, nesting value.sorted ≤ nesting value
  | .null | .bool _ | .int _ | .float _ | .str _ => by
      unfold Json.sorted
      exact le_rfl
  | .obj fields => by
      unfold Json.sorted nesting
      apply Nat.succ_le_succ
      refine nestingFields_le.mpr fun f hf hpublic => ?_
      obtain ⟨g, hg, rfl⟩ := Json.mem_sortedFields.mp hf
      exact (nesting_sorted_of_mem fields g hg).trans
        (nestingFields_le.mp le_rfl g hg hpublic)
  | .arr items => by
      unfold Json.sorted nesting
      exact Nat.succ_le_succ (nestingItems_sortedItems items)

theorem nestingItems_sortedItems : ∀ items : List Json,
    nestingItems (Json.sortedItems items) ≤ nestingItems items
  | [] => le_rfl
  | item :: rest => by
      unfold Json.sortedItems nestingItems
      exact max_le_max (nesting_sorted item) (nestingItems_sortedItems rest)

theorem nesting_sorted_of_mem : ∀ (fields : List (String × Json)), ∀ f ∈ fields,
    nesting f.2.sorted ≤ nesting f.2
  | [], _, hf => by cases hf
  | (key, value) :: rest, f, hf => by
      rcases List.mem_cons.mp hf with rfl | hrest
      · exact nesting_sorted value
      · exact nesting_sorted_of_mem rest f hrest

end

theorem publicPayload_sublist (eventType : String) (payload : Journal.Payload) :
    (publicPayload eventType payload).Sublist payload := by
  unfold publicPayload
  split
  · exact List.filter_sublist
  · exact List.Sublist.refl _

/-- What the journal keeps of a payload is no deeper than the payload. -/
theorem nesting_publicPayload {eventType : String} {given : Json} {payload : Journal.Payload}
    (h : Journal.projectPayload eventType given = .ok payload) :
    nesting (.obj (publicPayload eventType payload)) ≤ nesting given := by
  cases given with
  | obj fields =>
    cases h
    unfold nesting
    apply Nat.succ_le_succ
    refine nestingFields_le.mpr fun f hf hpublic => ?_
    obtain ⟨g, hg, rfl⟩ :=
      Json.mem_sortedFields.mp ((publicPayload_sublist eventType _).subset hf)
    have hgiven : g ∈ fields := by
      split at hg
      · exact List.mem_of_mem_filter hg
      · exact hg
    exact (nesting_sorted g.2).trans (nestingFields_le.mp le_rfl g hgiven hpublic)
  | _ => cases h

theorem redact_str {room : Nat} {value : Json} {s : String}
    (h : redact room value = some (.str s)) : value = .str s := by
  cases room with
  | zero => simp [redact] at h
  | succ room =>
    cases value with
    | str t =>
      cases h
      rfl
    | null | bool b | int n | float literal => cases h
    | obj fields | arr items =>
      unfold redact at h
      obtain ⟨_, _, h⟩ := Option.map_eq_some_iff.mp h
      cases h

theorem mem_redactFields {room : Nat} {fields kept : List (String × Json)} {f : String × Json}
    (h : redactFields room fields = some kept) (hf : f ∈ kept) :
    ∃ value, (f.1, value) ∈ fields ∧ redact room value = some f.2 := by
  induction fields generalizing kept with
  | nil =>
    cases h
    cases hf
  | cons g rest ih =>
    obtain ⟨key, value⟩ := g
    unfold redactFields at h
    split at h
    · obtain ⟨found, hfound, heq⟩ := ih h hf
      exact ⟨found, List.mem_cons_of_mem _ hfound, heq⟩
    obtain ⟨first, hfirst, h⟩ := Option.bind_eq_some_iff.mp h
    obtain ⟨more, hmore, rfl⟩ := Option.map_eq_some_iff.mp h
    rcases List.mem_cons.mp hf with rfl | hrest
    · exact ⟨value, List.mem_cons_self, hfirst⟩
    · obtain ⟨found, hfound, heq⟩ := ih hmore hrest
      exact ⟨found, List.mem_cons_of_mem _ hfound, heq⟩

theorem ShortTexts.redactFields {room : Nat} {eventType : String} {payload : Journal.Payload}
    {kept : List (String × Json)} (h : ShortTexts payload)
    (hkept : redactFields room (publicPayload eventType payload) = some kept) :
    ShortTexts kept := by
  intro f hf hkey s hs
  obtain ⟨value, hvalue, heq⟩ := mem_redactFields hkept hf
  rw [hs] at heq
  have hstr := redact_str heq
  subst hstr
  exact h _ ((publicPayload_sublist eventType payload).subset hvalue) hkey s rfl

end

section

variable {reader : Reader} {r : Journal.Record}

/-- The identifiers and the type are of the characters that the Integration knows. -/
structure Named (reader : Reader) (r : Journal.Record) : Prop where
  eventId : isBridgeIdentifier r.eventId = true
  thread : ∀ id ∈ r.scope.threadId, isBridgeIdentifier id = true
  eventType : r.eventType.toList.all (isTypeChar reader) = true

structure Consumable (reader : Reader) (room : Nat) (r : Journal.Record) : Prop extends
    Named reader r where
  /-- The App has the room to redact the payload. -/
  nested : nesting (.obj (publicPayload r.eventType r.payload)) ≤ room

def TextsFit (r : Journal.Record) : Prop :=
  r.scope.name = .thread → r.eventType ∈ messageTextEvents → ShortTexts r.payload

structure Formed (r : Journal.Record) : Prop where
  positive : 1 ≤ r.cursor
  bounded : r.cursor ≤ cursorMax
  eventId : isLength 128 r.eventId = true
  thread : ∀ id ∈ r.scope.threadId, isLength 128 id = true
  eventType : isLength 128 r.eventType = true
  timestamp : isLength 64 r.timestamp = true

theorem Formed.projectEvent {room : Nat} (h : Formed r) :
    projectEvent room r = (projectPayload room r.eventType r.payload).map (recordJson r) := by
  unfold Stream.projectEvent
  cases projectPayload room r.eventType r.payload with
  | none => rfl
  | some payload =>
    exact if_pos ⟨h.positive, h.eventId, h.thread, h.eventType, h.timestamp⟩

def scopeOf : Journal.Scope → EventScope
  | .auth => .auth
  | .runtime => .runtime
  | .thread _ => .thread

theorem readScope_json (scope : Journal.Scope) :
    readScope scope.name.text ((scope.threadId.map Json.str).getD .null) =
      if ∀ id ∈ scope.threadId, isBridgeIdentifier id = true then
        some (scopeOf scope, scope.threadId)
      else none := by
  cases scope with
  | auth | runtime =>
    rw [if_pos (fun id hid => by cases hid)]
    rfl
  | thread id =>
    have hiff : (∀ found ∈ (Journal.Scope.thread id).threadId,
        isBridgeIdentifier found = true) ↔ isBridgeIdentifier id = true :=
      ⟨fun h => h id rfl, fun h found hfound => by cases hfound; exact h⟩
    show (if isBridgeIdentifier id then some (EventScope.thread, some id) else none) = _
    by_cases hid : isBridgeIdentifier id = true
    · rw [if_pos hid, if_pos (hiff.mpr hid)]
      rfl
    · rw [if_neg hid, if_neg (fun h => hid (hiff.mp h))]

theorem fromPayload_recordJson_eq (reader : Reader) (r : Journal.Record) (payload : Json) :
    EventRecord.fromPayload reader (recordJson r payload) =
      if 1 ≤ (r.cursor : Int) ∧ (r.cursor : Int) ≤ cursorMax ∧ isLength 128 r.eventType ∧
          r.eventType.toList.all (isTypeChar reader) ∧ isLength 64 r.timestamp ∧
          isBridgeIdentifier r.eventId then
        (readScope r.scope.name.text ((r.scope.threadId.map Json.str).getD .null)).bind
          fun scope =>
            (readPayload reader scope.1 r.eventType payload).map fun payload =>
                { cursor := (r.cursor : Int).toNat
                  eventId := r.eventId
                  scope := scope.1
                  threadId := scope.2
                  eventType := r.eventType
                  payload := payload
                  timestamp := r.timestamp
                  estimatedBytes := reader.jsonBytes payload + r.eventId.length +
                    r.eventType.length + r.timestamp.length +
                      (scope.2.map String.length).getD 0 + 128 }
      else none := rfl

theorem fromPayload_recordJson {room : Nat} {wire : Json} (h : Formed r) (hfit : TextsFit r)
    (hwire : projectPayload room r.eventType r.payload = some wire) :
    ((EventRecord.fromPayload reader (recordJson r wire)).isSome = true ↔ Named reader r) ∧
      ∀ e, EventRecord.fromPayload reader (recordJson r wire) = some e →
        e.cursor = r.cursor := by
  have hpayload : (readPayload reader (scopeOf r.scope) r.eventType wire).isSome = true := by
    cases room with
    | zero => cases hwire
    | succ room =>
    unfold projectPayload redact at hwire
    obtain ⟨kept, hkept, rfl⟩ := Option.map_eq_some_iff.mp hwire
    apply readPayload_isSome
    intro hscope htype
    have hthread : r.scope.name = .thread := by
      cases hs : r.scope with
      | thread id => rfl
      | auth | runtime =>
        rw [hs] at hscope
        cases hscope
    exact (hfit hthread htype).redactFields hkept
  have hpositive := h.positive
  have hbounded := h.bounded
  rw [fromPayload_recordJson_eq, readScope_json]
  by_cases hchecks : isBridgeIdentifier r.eventId = true ∧
      r.eventType.toList.all (isTypeChar reader) = true
  · rw [if_pos ⟨by omega, by omega, h.eventType, hchecks.2, h.timestamp, hchecks.1⟩]
    by_cases hthread : ∀ id ∈ r.scope.threadId, isBridgeIdentifier id = true
    · rw [if_pos hthread, Option.bind_some, Option.isSome_map]
      refine ⟨⟨fun _ => ⟨hchecks.1, hthread, hchecks.2⟩, fun _ => hpayload⟩, ?_⟩
      intro e he
      obtain ⟨payload, _, rfl⟩ := Option.map_eq_some_iff.mp he
      exact Int.toNat_natCast r.cursor
    · rw [if_neg hthread]
      refine ⟨⟨(fun hsome => by cases hsome), fun hr => absurd hr.thread hthread⟩, ?_⟩
      intro e he
      cases he
  · rw [if_neg (fun hall => hchecks ⟨hall.2.2.2.2.2, hall.2.2.2.1⟩)]
    refine ⟨⟨(fun hsome => by cases hsome), ?_⟩, ?_⟩
    · exact fun hr => absurd ⟨hr.eventId, hr.eventType⟩ hchecks
    · intro e he
      cases he

end

section

variable {reader : Reader}

/-- What `replay` ensures of a page. -/
structure Paged (b : Journal.EventBatch) : Prop where
  formed : ∀ r ∈ b.events, Formed r
  length : b.events.length ≤ maxBatchEvents
  ceiling : b.nextCursor ≤ cursorMax
  floor : b.minimumCursor ≤ b.nextCursor
  increasing : (b.events.map (·.cursor)).IsChain (· < ·)
  above : ∀ r ∈ b.events, b.minimumCursor < r.cursor
  last : ∀ r ∈ b.events.getLast?, r.cursor ≤ b.nextCursor

theorem projectEvent_fromPayload {room : Nat} {r : Journal.Record} (h : Formed r)
    (hfit : TextsFit r) :
    (((projectEvent room r).bind (EventRecord.fromPayload reader)).isSome = true ↔
        Consumable reader room r) ∧
      ∀ item e, projectEvent room r = some item →
        EventRecord.fromPayload reader item = some e → e.cursor = r.cursor := by
  rw [h.projectEvent]
  have hroom : (projectPayload room r.eventType r.payload).isSome = true ↔ _ :=
    redact_isSome room (.obj (publicPayload r.eventType r.payload))
  cases hwire : projectPayload room r.eventType r.payload with
  | none =>
    rw [hwire] at hroom
    refine ⟨⟨(fun hsome => by cases hsome), fun hr => ?_⟩, fun _ _ hitem => by cases hitem⟩
    cases hroom.mpr hr.nested
  | some wire =>
    rw [hwire] at hroom
    obtain ⟨hread, hcursor⟩ := @fromPayload_recordJson reader r room wire h hfit hwire
    refine ⟨?_, fun item e hitem he => ?_⟩
    · rw [Option.map_some, Option.bind_some, hread]
      exact ⟨fun hnamed => ⟨hnamed, hroom.mp rfl⟩, fun hr => hr.toNamed⟩
    · cases hitem
      exact hcursor e he

theorem mapM_projectEvent {room : Nat} {records : List Journal.Record}
    (h : ∀ r ∈ records, Formed r) (hfit : ∀ r ∈ records, TextsFit r) :
    (((records.mapM (projectEvent room)).bind fun items =>
        items.mapM (EventRecord.fromPayload reader)).isSome = true ↔
          ∀ r ∈ records, Consumable reader room r) ∧
      ∀ items events, records.mapM (projectEvent room) = some items →
        items.mapM (EventRecord.fromPayload reader) = some events →
          events.map (·.cursor) = records.map (·.cursor) := by
  induction records with
  | nil =>
    refine ⟨⟨(fun _ r hr => by cases hr), fun _ => rfl⟩, ?_⟩
    intro items events hitems hevents
    cases hitems
    cases hevents
    rfl
  | cons r rest ih =>
    obtain ⟨hread, hcursor⟩ := @projectEvent_fromPayload reader room r
      (h r List.mem_cons_self) (hfit r List.mem_cons_self)
    obtain ⟨hrest, hcursors⟩ := ih (fun s hs => h s (List.mem_cons_of_mem r hs))
      fun s hs => hfit s (List.mem_cons_of_mem r hs)
    rw [List.mapM_cons, List.forall_mem_cons, ← hread, ← hrest]
    cases hfirst : projectEvent room r with
    | none =>
      refine ⟨⟨(fun hsome => by cases hsome), fun hboth => by cases hboth.1⟩, ?_⟩
      intro items events hitems
      cases hitems
    | some item =>
      cases hmore : rest.mapM (projectEvent room) with
      | none =>
        refine ⟨⟨(fun hsome => by cases hsome), fun hboth => by cases hboth.2⟩, ?_⟩
        intro items events hitems
        cases hitems
      | some found =>
        simp only [Option.bind_some, Option.bind_eq_bind, Option.pure_def, List.mapM_cons,
          Option.some.injEq]
        cases he : EventRecord.fromPayload reader item with
        | none =>
          refine ⟨⟨(fun hsome => by cases hsome), fun hboth => by cases hboth.1⟩, ?_⟩
          rintro items events rfl hevents
          rw [List.mapM_cons, he] at hevents
          cases hevents
        | some e =>
          cases hes : found.mapM (EventRecord.fromPayload reader) with
          | none =>
            refine ⟨⟨(fun hsome => by cases hsome), fun hboth => by cases hboth.2⟩, ?_⟩
            rintro items events rfl hevents
            rw [List.mapM_cons, he, hes] at hevents
            cases hevents
          | some es =>
            refine ⟨⟨fun _ => ⟨rfl, rfl⟩, fun _ => rfl⟩, ?_⟩
            rintro items events rfl hevents
            rw [List.mapM_cons, he, hes] at hevents
            cases hevents
            rw [List.map_cons, List.map_cons, hcursor item e hfirst he,
              hcursors found es hmore hes]

theorem fromPayload_pageJson_eq (reader : Reader) (b : Journal.EventBatch) (items : List Json)
    (heartbeat : Bool) :
    EventBatch.fromPayload reader (pageJson b items heartbeat) =
      if items.length ≤ maxBatchEvents ∧ 0 ≤ (b.nextCursor : Int) ∧
          0 ≤ (b.minimumCursor : Int) then
        (items.mapM (EventRecord.fromPayload reader)).bind fun events =>
          EventBatch.ofChecks events (b.nextCursor : Int).toNat (b.minimumCursor : Int).toNat
            b.hasMore heartbeat
      else none := rfl

theorem Paged.accepted_iff {room : Nat} {b : Journal.EventBatch} (h : Paged b)
    (hfit : ∀ r ∈ b.events, TextsFit r) {heartbeat : Bool}
    (hquiet : heartbeat = true → b.events = [] ∧ b.hasMore = false) :
    ((projectBatch room b heartbeat).bind (EventBatch.fromPayload reader)).isSome = true ↔
      ∀ r ∈ b.events, Consumable reader room r := by
  obtain ⟨hread, hcursors⟩ := @mapM_projectEvent reader room _ h.formed hfit
  rw [← hread]
  unfold projectBatch
  cases hitems : b.events.mapM (projectEvent room) with
  | none => rfl
  | some items =>
  have hcount := Json.length_mapM hitems
  have hlength := h.length
  rw [Option.bind_some, if_pos ⟨h.increasing, h.last, hquiet⟩, Option.bind_some,
    Option.bind_some, fromPayload_pageJson_eq,
    if_pos ⟨by omega, Int.natCast_nonneg _, Int.natCast_nonneg _⟩]
  cases hevents : items.mapM (EventRecord.fromPayload reader) with
  | none => rfl
  | some events =>
    have hpage : IsPage events b.nextCursor b.minimumCursor b.hasMore heartbeat := by
      have hsame := hcursors items events hitems hevents
      have hlength : events.length = b.events.length := by
        simpa using congrArg List.length hsame
      refine ⟨hlength ▸ h.length, h.ceiling, h.floor, hsame ▸ h.increasing, ?_, ?_, ?_⟩
      · intro e he
        have hmem : e.cursor ∈ b.events.map (·.cursor) := by
          rw [← hsame]
          exact List.mem_map_of_mem (List.mem_of_mem_head? he)
        obtain ⟨r, hr, heq⟩ := List.mem_map.mp hmem
        rw [← heq]
        exact h.above r hr
      · intro e he
        have hlast : (b.events.map (·.cursor)).getLast? = some e.cursor := by
          rw [← hsame, List.getLast?_map, he]
          rfl
        rw [List.getLast?_map] at hlast
        obtain ⟨r, hr, heq⟩ := Option.map_eq_some_iff.mp hlast
        rw [← heq]
        exact h.last r hr
      · intro hheartbeat
        obtain ⟨hnil, hmore⟩ := hquiet hheartbeat
        rw [hnil, List.length_nil] at hlength
        exact ⟨List.length_eq_zero_iff.mp hlength, hmore⟩
    rw [Option.bind_some, Int.toNat_natCast, Int.toNat_natCast, EventBatch.ofChecks,
      dif_pos hpage]
    rfl

end

section

variable {env : Journal.Environment} {request : Journal.AppendRequest} {draws : Journal.Draws}
  {c : Journal.CheckedAppend}

/-- What is drawn has the form of a time and of a `uuid4().hex`. -/
def Drawn (request : Journal.AppendRequest) (draws : Journal.Draws) : Prop :=
  (request.timestamp = none → isLength 64 draws.now = true) ∧
    (request.eventId.filter (· ≠ "") = none → PyText.isLowerHex 32 draws.uuid = true)

/-- The identifiers and the type of a request are of the characters that the Integration
knows, and the App has the room to redact its payload. -/
structure Plain (reader : Reader) (room : Nat) (request : Journal.AppendRequest) : Prop where
  eventId : ∀ id ∈ request.eventId, id = "" ∨ isBridgeIdentifier id = true
  thread : ∀ id ∈ request.threadId, isBridgeIdentifier id = true
  eventType : request.eventType.toList.all (isTypeChar reader) = true
  nested : nesting request.payload ≤ room

theorem boundedIdentifier_isLength {value field checked : String} {n : Nat}
    (h : Journal.boundedIdentifier value field n = .ok checked) : isLength n checked = true := by
  unfold Journal.boundedIdentifier at h
  split at h
  · rename_i hchecks
    cases h
    simp only [Bool.and_eq_true, decide_eq_true_eq] at hchecks
    have hne : 1 ≤ value.length := by
      rw [← String.length_toList]
      cases hvalue : value.toList with
      | nil =>
        have htrim := hchecks.1.2
        unfold PyText.isTrimmed at htrim
        rw [hvalue] at htrim
        cases htrim
      | cons x rest => exact Nat.succ_pos _
    unfold isLength
    rw [decide_eq_true hne, decide_eq_true hchecks.1.1]
    rfl
  · cases h

theorem normalizeScope_thread {scope : String} {threadId : Option String}
    {found : Journal.Scope} (h : Journal.normalizeScope scope threadId = .ok found) :
    ∀ id ∈ found.threadId, isLength 128 id = true ∧ threadId = some id := by
  unfold Journal.normalizeScope at h
  split at h
  · cases threadId with
    | none => cases h
    | some given =>
      obtain ⟨checked, hchecked, rfl⟩ := Effect.except_map_eq_ok.mp h
      intro id hid
      cases hid
      refine ⟨boundedIdentifier_isLength hchecked, ?_⟩
      rw [Journal.boundedIdentifier_eq hchecked]
  · split at h
    · split at h
      · cases h
      cases h
      intro id hid
      split at hid
      · cases hid
      · cases hid
    · cases h

theorem formed_of_stems {e : Journal.EventRow} (hpositive : 1 ≤ e.cursor)
    (hbounded : e.cursor ≤ cursorMax) (h : e.Stems env Drawn) :
    Formed (Journal.eventRecord e) := by
  obtain ⟨request, draws, c, hdrawn, hc, heq⟩ := h
  have hchecked := Journal.checkAppend_checked hc
  obtain ⟨given, hgiven, htime, _⟩ := hchecked.timestamp
  rw [heq]
  refine ⟨hpositive, hbounded, boundedIdentifier_isLength hchecked.eventId,
    fun id hid => (normalizeScope_thread hchecked.scope id hid).1,
    boundedIdentifier_isLength hchecked.eventType, ?_⟩
  show isLength 64 c.timestamp = true
  rw [htime]
  unfold Journal.optionalIdentifier at hgiven
  cases htimestamp : request.timestamp with
  | none =>
    rw [htimestamp] at hgiven
    cases hgiven
    exact hdrawn.1 htimestamp
  | some value =>
    rw [htimestamp] at hgiven
    obtain ⟨checked, hvalue, rfl⟩ := Effect.except_map_eq_ok.mp hgiven
    exact boundedIdentifier_isLength hvalue

/-- An identifier that the journal draws is one that the Integration knows. -/
theorem drawn_isBridgeIdentifier {uuid : String} (h : PyText.isLowerHex 32 uuid = true) :
    isBridgeIdentifier ("evt_" ++ uuid) = true := by
  unfold PyText.isLowerHex at h
  simp only [Bool.and_eq_true, decide_eq_true_eq] at h
  have hall : ∀ c ∈ uuid.toList, isIdentifierChar c = true := by
    intro c hc
    have hcases : c.isDigit = true ∨ ('a' ≤ c ∧ c ≤ 'f') := by
      simpa using List.all_eq_true.mp h.2 c hc
    have halnum : c.isAlphanum = true := by
      unfold Char.isAlphanum
      rcases hcases with hdigit | ⟨hlow, hhigh⟩
      · rw [hdigit, Bool.or_true]
      have hlower : c.isLower = true := by
        have hz : c ≤ 'z' := Char.le_trans hhigh (by decide)
        unfold Char.isLower
        rw [Bool.and_eq_true, decide_eq_true_eq, decide_eq_true_eq]
        exact ⟨hlow, hz⟩
      unfold Char.isAlpha
      rw [hlower, Bool.or_true, Bool.true_or]
    unfold isIdentifierChar
    rw [halnum, Bool.true_or, Bool.true_or]
  have hlength : ("evt_" ++ uuid).length = 36 := by
    rw [String.length_append, h.1]
    rfl
  unfold isBridgeIdentifier isLength
  rw [hlength, String.toList_append, List.all_append, List.all_eq_true.mpr hall]
  decide

theorem consumable_of_stems {reader : Reader} {room : Nat} {e : Journal.EventRow}
    (h : e.Stems env fun request draws => Drawn request draws ∧ Plain reader room request) :
    Consumable reader room (Journal.eventRecord e) := by
  obtain ⟨request, draws, c, ⟨hdrawn, hplain⟩, hc, heq⟩ := h
  have hchecked := Journal.checkAppend_checked hc
  rw [heq]
  refine ⟨⟨?_, ?_, ?_⟩, ?_⟩
  · show isBridgeIdentifier c.eventId = true
    rw [Journal.boundedIdentifier_eq hchecked.eventId]
    cases hgiven : request.eventId.filter (· ≠ "") with
    | none => exact drawn_isBridgeIdentifier (hdrawn.2 hgiven)
    | some id =>
      obtain ⟨hid, hne⟩ := Option.filter_eq_some_iff.mp hgiven
      exact (hplain.eventId id hid).resolve_left (of_decide_eq_true hne)
  · intro id hid
    exact hplain.thread id (normalizeScope_thread hchecked.scope id hid).2
  · show c.eventType.toList.all (isTypeChar reader) = true
    rw [Journal.boundedIdentifier_eq hchecked.eventType]
    exact hplain.eventType
  · have hpayload := hchecked.payload
    exact (nesting_publicPayload hpayload).trans hplain.nested

end

section

variable {env : Journal.Environment} {reader : Reader} {filters : Journal.Filters}
  {room cursor : Nat} {limit : Option Int} {batch : Journal.EventBatch}

/-- `replay`, where calls of the store may come between its three statements. -/
def replayAcross (env : Journal.Environment) (atFloor atRows atLast : Journal.Database)
    (filters : Journal.Filters) (cursor : Nat) (limit : Option Int) :
    Except Journal.JournalError Journal.EventBatch := do
  let n ← Journal.batchLimit env limit
  let floor := Journal.cursorFloor atFloor filters
  Effect.refuse (cursor < floor.1) (Journal.cursorExpired filters cursor floor)
  return Journal.assemble env n cursor floor.1 (Journal.selectRows atRows filters cursor (n + 1))
    (Journal.lastRetained atLast)

theorem batchLimit_le {n : Nat} (h : Journal.batchLimit env limit = .ok n) :
    n ≤ env.maxBatchEvents := by
  unfold Journal.batchLimit at h
  cases limit with
  | none =>
    cases h
    exact le_rfl
  | some k =>
    dsimp only at h
    split at h
    · cases h
    · cases h
      exact Nat.min_le_right _ _

theorem length_takeBatch_le (env : Journal.Environment) (limit count bytes : Nat)
    (rows : List Journal.EventRow) :
    (Journal.takeBatch env limit count bytes rows).length ≤ limit - count := by
  induction rows generalizing count bytes with
  | nil => exact Nat.zero_le _
  | cons row rest ih =>
    unfold Journal.takeBatch
    split
    · exact Nat.zero_le _
    split
    · exact Nat.zero_le _
    have hrest := ih (count + 1) (bytes + row.payloadBytes)
    rw [List.length_cons]
    omega

theorem replayAcross_spec {atFloor atRows atLast : Journal.Database}
    (h : replayAcross env atFloor atRows atLast filters cursor limit = .ok batch) :
    ∃ n rows, n ≤ env.maxBatchEvents ∧ rows <+: Journal.selectRows atRows filters cursor (n + 1) ∧
      rows.length ≤ n ∧ batch.events = rows.map Journal.eventRecord ∧
      batch.minimumCursor ≤ cursor ∧
      batch.nextCursor = (match rows.getLast? with
        | some row => row.cursor
        | none => max cursor (Journal.lastRetained atLast)) := by
  unfold replayAcross at h
  obtain ⟨n, hn, h⟩ := Effect.except_bind_eq_ok.mp h
  obtain ⟨hfloor, h⟩ := Effect.refuse_bind_eq_ok.mp h
  cases h
  exact ⟨n, Journal.takeBatch env n 0 0 (Journal.selectRows atRows filters cursor (n + 1)),
    batchLimit_le hn, Journal.prefix_takeBatch _ _ _ _ _, length_takeBatch_le _ _ _ _ _, rfl,
    Nat.not_lt.mp hfloor, rfl⟩

/-- What `replay` returns is a page. -/
theorem paged_of_replay {atFloor atRows atLast : Journal.Database}
    (hpage : env.maxBatchEvents ≤ maxBatchEvents) (hrows : Journal.Accounted atRows)
    (hroot : Journal.Rooted env Drawn atRows) (hbound : atRows.lastCursor ≤ cursorMax)
    (hlast : Journal.lastRetained atLast ≤ cursorMax) (hcursor : cursor ≤ cursorMax)
    (h : replayAcross env atFloor atRows atLast filters cursor limit = .ok batch) :
    Paged batch := by
  obtain ⟨n, rows, hn, hpre, hlength, hevents, hminimum, hnext⟩ := replayAcross_spec h
  have hmem : ∀ e ∈ rows, e ∈ atRows.events ∧ cursor < e.cursor := by
    intro e he
    obtain ⟨hin, hdue⟩ := List.mem_filter.mp (List.mem_of_mem_take (hpre.subset he))
    rw [Bool.and_eq_true, decide_eq_true_eq] at hdue
    exact ⟨hin, hdue.1⟩
  have hbounded : ∀ e ∈ rows, e.cursor ≤ cursorMax := fun e he =>
    (hrows.ordered.bounded e (hmem e he).1).trans hbound
  have hsorted : rows.Pairwise fun a b => a.cursor < b.cursor :=
    ((hrows.ordered.sorted.filter _).take).sublist hpre.sublist
  constructor
  · intro r hr
    rw [hevents] at hr
    obtain ⟨e, he, rfl⟩ := List.mem_map.mp hr
    obtain ⟨hpositive, hstems⟩ := hroot.events e (hmem e he).1
    exact formed_of_stems hpositive (hbounded e he) hstems
  · rw [hevents, List.length_map]
    omega
  · rw [hnext]
    cases hget : rows.getLast? with
    | none => exact max_le hcursor hlast
    | some e => exact hbounded e (List.mem_of_getLast? hget)
  · rw [hnext]
    cases hget : rows.getLast? with
    | none => exact hminimum.trans (le_max_left _ _)
    | some e => exact hminimum.trans (hmem e (List.mem_of_getLast? hget)).2.le
  · rw [hevents, List.map_map]
    exact List.isChain_iff_pairwise.mpr (List.pairwise_map.mpr hsorted)
  · intro r hr
    rw [hevents] at hr
    obtain ⟨e, he, rfl⟩ := List.mem_map.mp hr
    exact hminimum.trans_lt (hmem e he).2
  · intro r hr
    rw [hevents, List.getLast?_map] at hr
    obtain ⟨e, he, rfl⟩ := Option.map_eq_some_iff.mp hr
    rw [hnext, he]
    exact le_rfl

def Measures (env : Journal.Environment) : Prop :=
  ∀ payload : Journal.Payload, ∀ f ∈ payload, ∀ s, f.2 = .str s →
    PyText.utf8Length s ≤ env.payloadBytes payload

/-- In every run, at every cursor and with every filter: the App projects the page that `replay` or
`wait` returns, and the Integration accepts it exactly if the identifiers and types of its events
are of the characters it knows and the App has the room to redact their payloads, as it is if it was
so for all requests. Texts of messages may be too long only where the journal takes payloads
longer than they may be. -/
theorem replay_accepted_iff {before between later : List Journal.Change}
    (hdrawn : ∀ c ∈ before ++ between ++ later, c.Requests Drawn)
    (hpage : env.maxBatchEvents ≤ maxBatchEvents)
    (hsql : (Journal.Store.run env (before ++ between ++ later)).db.lastCursor ≤ cursorMax)
    (hcursor : cursor ≤ cursorMax) (h : replayAcross env (Journal.Store.run env before).db
      (Journal.Store.run env (before ++ between)).db
      (Journal.Store.run env (before ++ between ++ later)).db filters cursor limit = .ok batch)
    {heartbeat : Bool} (hquiet : heartbeat = true → batch.events = [] ∧ batch.hasMore = false) :
    ((∀ r ∈ batch.events, TextsFit r) →
        (((projectBatch room batch heartbeat).bind (EventBatch.fromPayload reader)).isSome = true ↔
          ∀ r ∈ batch.events, Consumable reader room r)) ∧
      ((∀ c ∈ before ++ between, c.Requests fun request _ => Plain reader room request) →
        ∀ r ∈ batch.events, Consumable reader room r) ∧
      (Measures env → env.maxEventPayloadBytes ≤ maxMessageTextBytes →
        ∀ r ∈ batch.events, TextsFit r) := by
  have hretained := Journal.Store.run_retained env (before ++ between)
  have hrooted : Journal.Rooted env Drawn (Journal.Store.run env (before ++ between)).db :=
    Journal.Store.run_rooted fun c hc => hdrawn c (List.mem_append_left _ hc)
  have hlast := (Journal.lastRetained_le
    (Journal.Store.run_retained env (before ++ between ++ later)).accounted.ordered).trans hsql
  have hbound := (Journal.Store.run_lastCursor_le env (before ++ between) later).trans hsql
  have hstored : ∀ r ∈ batch.events, ∃ e ∈ (Journal.Store.run env (before ++ between)).db.events,
      r = Journal.eventRecord e := by
    obtain ⟨n, rows, _, hpre, _, hevents, _⟩ := replayAcross_spec h
    intro r hr
    rw [hevents] at hr
    obtain ⟨e, he, rfl⟩ := List.mem_map.mp hr
    exact ⟨e, List.mem_of_mem_filter (List.mem_of_mem_take (hpre.subset he)), rfl⟩
  refine ⟨?_, ?_, ?_⟩
  · intro hfit
    exact (paged_of_replay hpage hretained.accounted hrooted hbound hlast hcursor h).accepted_iff
      hfit hquiet
  · intro hplain r hr
    obtain ⟨e, he, rfl⟩ := hstored r hr
    have hboth : Journal.Rooted env (fun request draws => Drawn request draws ∧
        Plain reader room request) (Journal.Store.run env (before ++ between)).db :=
      Journal.Store.run_rooted fun c hc =>
        (hdrawn c (List.mem_append_left _ hc)).and (hplain c hc)
    exact consumable_of_stems (hboth.events e he).2
  · intro hmeasures hlimit r hr _ _ f hf _ s hs
    obtain ⟨e, he, rfl⟩ := hstored r hr
    obtain ⟨request, draws, c, _, hc, heq⟩ := (hrooted.events e he).2
    rw [heq] at hf
    exact ((hmeasures c.payload f hf s hs).trans (Journal.checkAppend_checked hc).bytes.2).trans
      hlimit

end

def sampleReader : Reader where
  isAlnum := Char.isAlphanum
  isFinite := fun _ => true
  jsonBytes := fun _ => 2

def sampleDraws : Journal.Draws where
  now := "2026-07-13T12:00:00Z"
  uuid := String.ofList (List.replicate 32 '0')
  full := false

def sampleMessage : Journal.Change :=
  .append
    { operationKey := "message-1"
      scope := "thread"
      threadId := some "thr_1"
      eventType := "message.created"
      payload := .obj [("role", .str "user"), ("text", .str "Hello")]
      timestamp := none
      operationId := none
      eventId := none
      scopeSequence := none } sampleDraws

def spacedLog : Journal.Change :=
  .importLegacy ⟨fun value => value.str?.getD "", fun _ => "", fun _ => false⟩ "thr_1"
    [(.value (.obj [("thread_id", .str "thr_1"), ("sequence", .int 1), ("event_id", .str "evt 1"),
      ("event_type", .str "run.started"), ("payload", .obj [("run_id", .str "run_1")]),
      ("timestamp", .str "2026-07-13T12:00:00Z")]), sampleDraws)]

theorem sampleMessage_drawn : ∀ c ∈ [sampleMessage] ++ [] ++ [], c.Requests Drawn := by
  intro c hc
  rw [List.mem_singleton.mp hc]
  exact ⟨fun _ => by decide +kernel, fun _ => by decide +kernel⟩

theorem replay_accepted_iff_message :
    (Journal.replay Journal.sampleEnvironment
      (Journal.Store.run Journal.sampleEnvironment [sampleMessage]).db ⟨none, none⟩ 0 none
        ).toOption.any (fun batch => !batch.events.isEmpty &&
          ((projectBatch 64 batch false).bind (EventBatch.fromPayload sampleReader)).isSome) =
      true ∧
    ∀ batch, replayAcross Journal.sampleEnvironment
        (Journal.Store.run Journal.sampleEnvironment [sampleMessage]).db
        (Journal.Store.run Journal.sampleEnvironment ([sampleMessage] ++ [])).db
        (Journal.Store.run Journal.sampleEnvironment ([sampleMessage] ++ [] ++ [])).db
        ⟨none, none⟩ 0 none = .ok batch →
      ((∀ r ∈ batch.events, TextsFit r) →
          (((projectBatch 64 batch false).bind (EventBatch.fromPayload sampleReader)).isSome =
            true ↔ ∀ r ∈ batch.events, Consumable sampleReader 64 r)) ∧
        ((∀ c ∈ [sampleMessage] ++ [], c.Requests fun request _ => Plain sampleReader 64 request) →
          ∀ r ∈ batch.events, Consumable sampleReader 64 r) ∧
        (Measures Journal.sampleEnvironment →
          Journal.sampleEnvironment.maxEventPayloadBytes ≤ maxMessageTextBytes →
            ∀ r ∈ batch.events, TextsFit r) :=
  ⟨by decide +kernel, fun _ h => replay_accepted_iff sampleMessage_drawn (by decide)
    (by decide +kernel) (Nat.zero_le _) h fun heartbeat => by cases heartbeat⟩

/-- The journal takes the log, and the Integration accepts no page with its event. -/
theorem spacedLog_refused :
    ∃ batch, Journal.replay Journal.sampleEnvironment
        (Journal.Store.run Journal.sampleEnvironment [spacedLog]).db ⟨none, none⟩ 0 none =
          .ok batch ∧
      (projectBatch 64 batch false).isSome = true ∧
        (projectBatch 64 batch false).bind (EventBatch.fromPayload sampleReader) = none := by
  have hrun : (Journal.replay Journal.sampleEnvironment
      (Journal.Store.run Journal.sampleEnvironment [spacedLog]).db ⟨none, none⟩ 0 none
        ).toOption.any (fun batch => (projectBatch 64 batch false).isSome &&
          ((projectBatch 64 batch false).bind (EventBatch.fromPayload sampleReader)).isNone) =
      true := by
    decide +kernel
  cases hreplay : Journal.replay Journal.sampleEnvironment
      (Journal.Store.run Journal.sampleEnvironment [spacedLog]).db ⟨none, none⟩ 0 none with
  | error e =>
    rw [hreplay] at hrun
    cases hrun
  | ok batch =>
    rw [hreplay] at hrun
    have hboth : ((projectBatch 64 batch false).isSome && ((projectBatch 64 batch false).bind
        (EventBatch.fromPayload sampleReader)).isNone) = true := hrun
    rw [Bool.and_eq_true] at hboth
    exact ⟨batch, rfl, hboth.1, Option.isNone_iff_eq_none.mp hboth.2⟩

end CodexBridge.Stream
