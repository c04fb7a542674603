import CodexBridge.Journal.Changes
import CodexBridge.Journal.Lossless

/-! # Retention

The counters of a scope are those of its events, and its events leave in the order
of their cursors: all up to the floor at the moment the floor is raised. So whatever
is retained at or below the floor came after the call that raised it.
-/

namespace CodexBridge.Journal

open Effect

def eventsOf (db : Database) (scope : Scope) : List EventRow :=
  db.events.filter fun e => e.scope = scope

def bytesOf (events : List EventRow) : Nat := (events.map EventRow.payloadBytes).sum

def snapshotOf (db : Database) (scope : Scope) : Nat := (scopeState db scope).snapshotCursor

variable {db : Database} {scope : Scope}

theorem mem_eventsOf {e : EventRow} :
    e ∈ eventsOf db scope ↔ e ∈ db.events ∧ e.scope = scope := by
  simp [eventsOf]

/-- The scope satisfies both limits or holds exactly one event. -/
def WithinLimits (env : Environment) (db : Database) (scope : Scope) : Prop :=
  ((eventsOf db scope).length ≤ (retentionLimits env scope).1 ∧
      bytesOf (eventsOf db scope) ≤ (retentionLimits env scope).2) ∨
    (eventsOf db scope).length = 1

structure Accounted (db : Database) : Prop where
  ordered : Ordered db
  positive : ∀ e ∈ db.events, 0 < e.cursor
  counted : ∀ scope, (scopeState db scope).retainedCount = (eventsOf db scope).length
  weighed : ∀ scope, (scopeState db scope).retainedBytes = bytesOf (eventsOf db scope)

theorem accounted_empty : Accounted .empty where
  ordered := ⟨List.Pairwise.nil, fun e he => by cases he⟩
  positive e he := by cases he
  counted scope := rfl
  weighed scope := rfl

structure SameEvents (db db' : Database) : Prop where
  events : db'.events = db.events
  last : db'.lastCursor = db.lastCursor
  states : ∀ scope, scopeState db' scope = scopeState db scope

variable {db db' : Database}

theorem SameEvents.of_eq (he : db'.events = db.events)
    (hl : db'.lastCursor = db.lastCursor) (hs : db'.scopes = db.scopes) : SameEvents db db' := by
  refine ⟨he, hl, ?_⟩
  intro scope
  unfold scopeState
  rw [hs]

theorem SameEvents.eventsOf (h : SameEvents db db') (scope : Scope) :
    eventsOf db' scope = eventsOf db scope := by
  unfold Journal.eventsOf
  rw [h.events]

theorem Accounted.of_same (h : Accounted db) (hs : SameEvents db db') :
    Accounted db' := by
  refine ⟨⟨?_, ?_⟩, ?_, ?_, ?_⟩
  · rw [hs.events]
    exact h.ordered.sorted
  · rw [hs.events, hs.last]
    exact h.ordered.bounded
  · rw [hs.events]
    exact h.positive
  · intro scope
    rw [hs.states, hs.eventsOf]
    exact h.counted scope
  · intro scope
    rw [hs.states, hs.eventsOf]
    exact h.weighed scope

/-! ## Deleting through a cursor -/

def removedThrough (db : Database) (scope : Scope) (through : Nat) : List EventRow :=
  (eventsOf db scope).filter fun e => e.cursor ≤ through

def keptAbove (db : Database) (scope : Scope) (through : Nat) : List EventRow :=
  (eventsOf db scope).filter fun e => through < e.cursor

theorem removedThrough_eq (db : Database) (scope : Scope) (through : Nat) :
    (db.events.filter fun e => e.scope = scope && e.cursor ≤ through) =
      removedThrough db scope through := by
  unfold removedThrough eventsOf
  rw [List.filter_filter]
  exact List.filter_congr fun e _ => by simp [Bool.and_comm]

theorem decide_above (through cursor : Nat) :
    decide (through < cursor) = !decide (cursor ≤ through) := by
  rw [← decide_not, decide_eq_decide]
  omega

theorem removed_kept_perm (db : Database) (scope : Scope) (through : Nat) :
    (removedThrough db scope through ++ keptAbove db scope through).Perm (eventsOf db scope) := by
  have hsplit := List.filter_append_perm (fun e => decide (e.cursor ≤ through)) (eventsOf db scope)
  have hkept : keptAbove db scope through =
      (eventsOf db scope).filter fun e => !decide (e.cursor ≤ through) :=
    List.filter_congr fun e _ => decide_above through e.cursor
  rw [hkept]
  exact hsplit

theorem length_removed_kept (db : Database) (scope : Scope) (through : Nat) :
    (removedThrough db scope through).length + (keptAbove db scope through).length =
      (eventsOf db scope).length := by
  rw [← List.length_append]
  exact (removed_kept_perm db scope through).length_eq

theorem bytes_removed_kept (db : Database) (scope : Scope) (through : Nat) :
    bytesOf (removedThrough db scope through) + bytesOf (keptAbove db scope through) =
      bytesOf (eventsOf db scope) := by
  have hsum := ((removed_kept_perm db scope through).map EventRow.payloadBytes).sum_nat
  rw [List.map_append, List.sum_append] at hsum
  exact hsum

theorem eventsOf_deleteThrough (db : Database) (scope other : Scope) (through : Nat) :
    eventsOf (deleteThrough db scope through) other =
      if other = scope then keptAbove db scope through else eventsOf db other := by
  unfold keptAbove eventsOf deleteThrough
  rw [List.filter_filter, List.filter_filter]
  split
  · rename_i hs
    subst hs
    refine List.filter_congr fun e _ => ?_
    rw [decide_above]
    by_cases he : e.scope = other
    · simp [he]
    · simp [he]
  · rename_i hs
    refine List.filter_congr fun e _ => ?_
    by_cases he : e.scope = other
    · have hne : e.scope ≠ scope := he ▸ hs
      simp [he, hs]
    · simp [he]

/-- What compaction and eviction do to the tables of a scope. -/
def lowered (db : Database) (scope : Scope) (through snapshot count bytes : Nat) : Database :=
  setScope (deleteThrough db scope through) scope fun s =>
    { s with
      minimumCursor := max s.minimumCursor through
      snapshotCursor := max s.snapshotCursor snapshot
      retainedCount := s.retainedCount - count
      retainedBytes := s.retainedBytes - bytes }

theorem eventsOf_lowered (db : Database) (scope other : Scope)
    (through snapshot count bytes : Nat) :
    eventsOf (lowered db scope through snapshot count bytes) other =
      if other = scope then keptAbove db scope through else eventsOf db other :=
  eventsOf_deleteThrough db scope other through

theorem mem_lowered {through snapshot count bytes : Nat}
    {e : EventRow} : e ∈ (lowered db scope through snapshot count bytes).events ↔
      e ∈ db.events ∧ (e.scope = scope → through < e.cursor) := by
  change e ∈ db.events.filter _ ↔ _
  rw [List.mem_filter]
  by_cases hs : e.scope = scope
  · simp [hs]
  · simp [hs]

/-- Deleting through a cursor keeps the books if it takes what it removed off them. -/
theorem Accounted.lowered (h : Accounted db) (scope : Scope) (through snapshot : Nat) :
    Accounted (lowered db scope through snapshot (removedThrough db scope through).length
      (bytesOf (removedThrough db scope through))) := by
  have hcount := length_removed_kept db scope through
  have hbytes := bytes_removed_kept db scope through
  refine ⟨⟨?_, ?_⟩, ?_, ?_, ?_⟩
  · exact h.ordered.sorted.filter _
  · intro e he
    exact h.ordered.bounded e (mem_lowered.mp he).1
  · intro e he
    exact h.positive e (mem_lowered.mp he).1
  · intro other
    rw [eventsOf_lowered]
    unfold Journal.lowered
    rw [scopeState_setScope]
    split
    · have hold := h.counted scope
      change (scopeState db scope).retainedCount - _ = _
      omega
    · exact h.counted other
  · intro other
    rw [eventsOf_lowered]
    unfold Journal.lowered
    rw [scopeState_setScope]
    split
    · have hold := h.weighed scope
      change (scopeState db scope).retainedBytes - _ = _
      omega
    · exact h.weighed other

/-- The scan takes rows from the front while the scope is over its limits and would
keep another row. -/
theorem evictionScan_spec (excessCount excessBytes retained : Nat) (rows : List EventRow)
    (count bytes through : Nat) :
    ∃ taken rest, rows = taken ++ rest ∧
      evictionScan excessCount excessBytes retained rows (count, bytes, through) =
        (count + taken.length, bytes + bytesOf taken,
          (taken.getLast?.map EventRow.cursor).getD through) ∧
      (rest = [] ∨ ¬((count + taken.length < excessCount ∨ bytes + bytesOf taken < excessBytes) ∧
        1 < retained - (count + taken.length))) ∧
      (taken ≠ [] → count + taken.length < retained) := by
  induction rows generalizing count bytes through with
  | nil => exact ⟨[], [], rfl, rfl, .inl rfl, fun h => absurd rfl h⟩
  | cons row rows ih =>
    by_cases hmore : (count < excessCount ∨ bytes < excessBytes) ∧ 1 < retained - count
    · obtain ⟨taken, rest, hrows, hscan, hstop, hroom⟩ :=
        ih (count + 1) (bytes + row.payloadBytes) row.cursor
      have hlength : count + 1 + taken.length = count + (row :: taken).length := by
        simp only [List.length_cons]
        omega
      have hsum : bytes + row.payloadBytes + bytesOf taken = bytes + bytesOf (row :: taken) := by
        simp only [bytesOf, List.map_cons, List.sum_cons]
        omega
      refine ⟨row :: taken, rest, by rw [hrows, List.cons_append], ?_, ?_, ?_⟩
      · rw [evictionScan, if_pos hmore, hscan, hlength, hsum]
        cases taken with
        | nil => rfl
        | cons next taken => simp [List.getLast?_cons]
      · rw [← hlength, ← hsum]
        exact hstop
      · intro _
        cases taken with
        | nil =>
          simp only [List.length_cons, List.length_nil]
          omega
        | cons next taken =>
          have hlt := hroom (by simp)
          omega
    · refine ⟨[], row :: rows, rfl, ?_, .inr ?_, fun h => absurd rfl h⟩
      · rw [evictionScan, if_neg hmore]
        rfl
      · exact hmore

theorem filter_le_last {taken rest : List EventRow} {last : EventRow}
    (hs : (taken ++ rest).Pairwise fun a b => a.cursor < b.cursor)
    (hl : taken.getLast? = some last) :
    ((taken ++ rest).filter fun e => e.cursor ≤ last.cursor) = taken ∧
      ((taken ++ rest).filter fun e => last.cursor < e.cursor) = rest := by
  obtain ⟨hfront, hback, hcross⟩ := List.pairwise_append.mp hs
  have hmem : last ∈ taken := List.mem_of_getLast? hl
  have hle : ∀ e ∈ taken, e.cursor ≤ last.cursor := by
    intro e he
    obtain ⟨init, rfl⟩ := List.getLast?_eq_some_iff.mp hl
    rcases List.mem_append.mp he with he | he
    · exact Nat.le_of_lt ((List.pairwise_append.mp hfront).2.2 e he last List.mem_cons_self)
    · rw [List.mem_singleton.mp he]
  have hgt : ∀ e ∈ rest, last.cursor < e.cursor := fun e he => hcross last hmem e he
  refine ⟨?_, ?_⟩
  · have htaken : (taken.filter fun e => e.cursor ≤ last.cursor) = taken :=
      List.filter_eq_self.mpr fun e he => by simpa using hle e he
    have hrest : (rest.filter fun e => e.cursor ≤ last.cursor) = [] :=
      List.filter_eq_nil_iff.mpr fun e he => by simpa using hgt e he
    rw [List.filter_append, htaken, hrest, List.append_nil]
  · have htaken : (taken.filter fun e => last.cursor < e.cursor) = [] :=
      List.filter_eq_nil_iff.mpr fun e he => by simpa using hle e he
    have hrest : (rest.filter fun e => last.cursor < e.cursor) = rest :=
      List.filter_eq_self.mpr fun e he => by simpa using hgt e he
    rw [List.filter_append, htaken, hrest, List.nil_append]

theorem bytesOf_append (xs ys : List EventRow) : bytesOf (xs ++ ys) = bytesOf xs + bytesOf ys := by
  simp [bytesOf]

/-- Eviction deletes through a cursor that leaves events above it, or nothing, and then
the scope is within its limits or down to one event. -/
theorem enforceScopeRetention_spec (h : Accounted db) {snapshot maxCount maxBytes : Nat}
    (he : (enforceScopeRetention db scope snapshot maxCount maxBytes).1 = db') :
    (db' = db ∨ ∃ through, keptAbove db scope through ≠ [] ∧
      db' = lowered db scope through snapshot (removedThrough db scope through).length
        (bytesOf (removedThrough db scope through))) ∧
    (((eventsOf db' scope).length ≤ maxCount ∧ bytesOf (eventsOf db' scope) ≤ maxBytes) ∨
      (eventsOf db' scope).length = 1) := by
  have hcount := h.counted scope
  have hbytes := h.weighed scope
  obtain ⟨taken, rest, hrows, hscan, hstop, hroom⟩ := evictionScan_spec
    ((scopeState db scope).retainedCount - maxCount)
    ((scopeState db scope).retainedBytes - maxBytes) (scopeState db scope).retainedCount
    (eventsOf db scope) 0 0 0
  have hlength : (eventsOf db scope).length = taken.length + rest.length := by
    rw [hrows, List.length_append]
  have hsum : bytesOf (eventsOf db scope) = bytesOf taken + bytesOf rest := by
    rw [hrows, bytesOf_append]
  rw [Nat.zero_add, Nat.zero_add] at hscan hstop
  rw [Nat.zero_add] at hroom
  unfold enforceScopeRetention at he
  change (if _ then _ else _ : Database × Bool).1 = db' at he
  split at he
  · rename_i hfits
    have hsame : db = db' := he
    subst hsame
    exact ⟨.inl rfl, .inl ⟨by omega, by omega⟩⟩
  rename_i hexcess
  unfold eventsOf at hscan
  rw [hscan] at he
  cases htaken : taken.getLast? with
  | none =>
    -- nothing was taken: the scope was down to one event
    have hnil := List.getLast?_eq_none_iff.mp htaken
    simp only [htaken, Option.map_none, Option.getD_none, if_pos] at he
    subst he
    rw [hnil] at hlength hsum hstop
    simp only [List.length_nil, Nat.zero_add] at hlength hstop
    have hempty : bytesOf ([] : List EventRow) = 0 := rfl
    rw [hempty] at hsum hstop
    rcases hstop with hrest | hstop
    · rw [hrest] at hlength hsum
      rw [List.length_nil] at hlength
      exact absurd ⟨by omega, by omega⟩ hexcess
    refine ⟨.inl rfl, ?_⟩
    by_cases hnone : (eventsOf db scope).length = 0
    · have hlist := List.length_eq_zero_iff.mp hnone
      rw [hlist, hempty] at hbytes
      exact absurd ⟨by omega, by omega⟩ hexcess
    · exact .inr (by omega)
  | some last =>
    have hmem : last ∈ eventsOf db scope := by
      rw [hrows]
      exact List.mem_append_left _ (List.mem_of_getLast? htaken)
    have hpos := h.positive last (mem_eventsOf.mp hmem).1
    have hsorted : (taken ++ rest).Pairwise fun a b => a.cursor < b.cursor := by
      rw [← hrows]
      exact h.ordered.sorted.filter _
    obtain ⟨hremoved, hkept⟩ := filter_le_last hsorted htaken
    rw [← hrows] at hremoved hkept
    have hlt := hroom (by
      rintro rfl
      cases htaken)
    simp only [htaken, Option.map_some, Option.getD_some] at he
    rw [if_neg (by omega)] at he
    have hrest : rest ≠ [] := by
      rintro rfl
      rw [List.length_nil] at hlength
      omega
    refine ⟨.inr ⟨last.cursor, ?_, ?_⟩, ?_⟩
    · unfold keptAbove
      rw [hkept]
      exact hrest
    · unfold removedThrough
      rw [hremoved]
      exact he.symm
    · rw [← he]
      change ((eventsOf (lowered db scope _ _ _ _) scope).length ≤ _ ∧
        bytesOf (eventsOf (lowered db scope _ _ _ _) scope) ≤ _) ∨
        (eventsOf (lowered db scope _ _ _ _) scope).length = 1
      rw [eventsOf_lowered, if_pos rfl]
      unfold keptAbove
      rw [hkept]
      rcases hstop with hnil | hstop
      · exact absurd hnil hrest
      · have hone := List.length_pos_iff.mpr hrest
        omega

variable {env : Environment}

/-- An append that inserts: the event goes in, its projections follow, then retention. -/
theorem append_inserted {request : AppendRequest} {draws : Draws} {record : Record}
    (h : append env db request draws = .ok (record, true, db')) :
    ∃ c projected, checkAppend env request draws = .ok c ∧
      (newEvent db c).scopeSequence < maxSqlInteger ∧ collides db (newEvent db c) = false ∧
      record = eventRecord (newEvent db c) ∧
      projectEvent env (insertEvent db c) (newEvent db c) = .ok projected ∧
      retain env projected (newEvent db c) = .ok db' := by
  unfold append at h
  obtain ⟨c, hc, h⟩ := except_bind_eq_ok.mp h
  unfold appendChecked at h
  cases hl : db.ledger.get? c.operationKey with
  | some row =>
    simp only [hl] at h
    split at h
    · cases h
    · cases h
  | none =>
    simp only [hl, refuse_bind_eq_ok] at h
    obtain ⟨_, _, small, free, h⟩ := h
    obtain ⟨projected, hp, h⟩ := except_bind_eq_ok.mp h
    obtain ⟨kept, hk, h⟩ := except_bind_eq_ok.mp h
    cases h
    exact ⟨c, projected, hc, by omega, by simpa using free, rfl, hp, hk⟩

theorem projectEvent_spec {row : EventRow} (h : projectEvent env db row = .ok db') :
    ∃ transcript lifecycle, db' = { db with transcript := transcript, lifecycle := lifecycle } := by
  unfold projectEvent at h
  split at h
  · rename_i threadId _
    obtain ⟨lifecycle, hl⟩ := projectLifecycle_edit db threadId row
    rw [hl] at h
    obtain ⟨transcript, rfl⟩ := projectTranscript_edit h
    exact ⟨transcript, lifecycle, rfl⟩
  · cases h
    exact ⟨db.transcript, db.lifecycle, rfl⟩

theorem prune_sameEvents {env : Environment}
    (h : pruneOrphanedMetadata env db = .ok db') : SameEvents db db' := by
  obtain ⟨tombstones, legacy, rfl, _⟩ := prune_spec h
  exact SameEvents.of_eq rfl rfl rfl

theorem retain_spec {row : EventRow} (h : retain env db row = .ok db') :
    SameEvents (enforceScopeRetention db row.scope row.cursor (retentionLimits env row.scope).1
      (retentionLimits env row.scope).2).1 db' := by
  unfold retain at h
  simp only at h
  split at h
  · exact prune_sameEvents h
  · cases h
    exact SameEvents.of_eq rfl rfl rfl

theorem eventsOf_insertEvent (db : Database) (c : CheckedAppend) (scope : Scope) :
    eventsOf (insertEvent db c) scope =
      if scope = c.scope then eventsOf db scope ++ [newEvent db c] else eventsOf db scope := by
  change (db.events ++ [newEvent db c]).filter _ = _
  rw [List.filter_append]
  split
  · rename_i hs
    rw [List.filter_cons_of_pos (by simp [newEvent, hs])]
    rfl
  rename_i hs
  have hne : ¬ c.scope = scope := fun h => hs h.symm
  rw [List.filter_cons_of_neg (by simp [newEvent, hne]), List.filter_nil, List.append_nil]
  rfl

theorem Accounted.insertEvent (h : Accounted db) (c : CheckedAppend) :
    Accounted (insertEvent db c) := by
  have hordered := h.ordered
  refine ⟨⟨?_, ?_⟩, ?_, ?_, ?_⟩
  · refine List.pairwise_append.mpr ⟨hordered.sorted, List.pairwise_singleton _ _, ?_⟩
    intro a ha b hb
    rw [List.mem_singleton.mp hb]
    exact Nat.lt_succ_of_le (hordered.bounded a ha)
  · intro e he
    rcases List.mem_append.mp he with he | he
    · exact le_trans (hordered.bounded e he) (Nat.le_succ _)
    · rw [List.mem_singleton.mp he]
      exact le_rfl
  · intro e he
    rcases List.mem_append.mp he with he | he
    · exact h.positive e he
    · rw [List.mem_singleton.mp he]
      exact Nat.succ_pos _
  · intro scope
    rw [eventsOf_insertEvent]
    unfold Journal.insertEvent
    rw [scopeState_setScope]
    split
    · rename_i hs
      rw [hs, List.length_append]
      change (scopeState db c.scope).retainedCount + 1 = _
      rw [h.counted c.scope]
      rfl
    · exact h.counted scope
  · intro scope
    rw [eventsOf_insertEvent]
    unfold Journal.insertEvent
    rw [scopeState_setScope]
    split
    · rename_i hs
      rw [hs, bytesOf_append]
      change (scopeState db c.scope).retainedBytes + c.payloadBytes = _
      rw [h.weighed c.scope]
      simp [bytesOf, newEvent]
    · exact h.weighed scope

/-! ## Moves -/

/-- A move raises floors and snapshots only, and when it raises a floor it leaves no event
of the scope at or below it. -/
structure Moves (db db' : Database) : Prop where
  evolves : Evolves db db'
  snapshots : ∀ scope, snapshotOf db scope ≤ snapshotOf db' scope
  raised : ∀ scope, floorOf db scope < floorOf db' scope →
    ∀ e ∈ db'.events, e.scope = scope → floorOf db' scope < e.cursor

theorem Moves.same {db mid db' : Database} (h : Moves db mid) (hs : SameEvents mid db') :
    Moves db db' := by
  have hfloor : ∀ scope, floorOf db' scope = floorOf mid scope := by
    intro scope
    unfold floorOf
    rw [hs.states]
  refine ⟨⟨hs.last ▸ h.evolves.last, ?_, ?_, ?_⟩, ?_, ?_⟩
  · intro scope
    rw [hfloor]
    exact h.evolves.floors scope
  · intro e he
    exact h.evolves.fresh e (hs.events ▸ he)
  · intro e he hn
    rw [hfloor]
    exact h.evolves.gone e he (hs.events ▸ hn)
  · intro scope
    unfold snapshotOf
    rw [hs.states]
    exact h.snapshots scope
  · intro scope hlt e he hin
    rw [hfloor] at hlt ⊢
    exact h.raised scope hlt e (hs.events ▸ he) hin

structure Gradual (db db' : Database) : Prop extends Moves db db' where
  attained : ∀ scope, floorOf db scope < floorOf db' scope →
    floorOf db' scope ≤ db'.lastCursor

theorem Gradual.of_same (h : SameEvents db db') : Gradual db db' := by
  have hfloor : ∀ scope, floorOf db' scope = floorOf db scope := by
    intro scope
    unfold floorOf
    rw [h.states]
  refine ⟨⟨⟨le_of_eq h.last.symm, ?_, ?_, ?_⟩, ?_, ?_⟩, ?_⟩
  · intro scope
    rw [hfloor]
  · intro e he
    exact .inl (h.events ▸ he)
  · intro e he hn
    exact absurd (h.events ▸ he) hn
  · intro scope
    unfold snapshotOf
    rw [h.states]
  · intro scope hlt
    rw [hfloor] at hlt
    exact absurd hlt (lt_irrefl _)
  · intro scope hlt
    rw [hfloor] at hlt
    exact absurd hlt (lt_irrefl _)

theorem Gradual.refl (db : Database) : Gradual db db :=
    Gradual.of_same (SameEvents.of_eq rfl rfl rfl)

theorem Gradual.trans {db mid db' : Database} (h : Gradual db mid) (k : Gradual mid db') :
    Gradual db db' := by
  refine ⟨⟨h.evolves.trans k.evolves, ?_, ?_⟩, ?_⟩
  · intro scope
    exact le_trans (h.snapshots scope) (k.snapshots scope)
  · intro scope hlt e he hs
    by_cases hlater : floorOf mid scope < floorOf db' scope
    · exact k.raised scope hlater e he hs
    have hsame : floorOf db' scope = floorOf mid scope :=
      le_antisymm (not_lt.mp hlater) (k.evolves.floors scope)
    rw [hsame] at hlt ⊢
    rcases k.evolves.fresh e he with hold | hnew
    · exact h.raised scope hlt e hold hs
    · exact lt_of_le_of_lt (h.attained scope hlt) hnew
  · intro scope hlt
    by_cases hlater : floorOf mid scope < floorOf db' scope
    · exact k.attained scope hlater
    have hsame : floorOf db' scope = floorOf mid scope :=
      le_antisymm (not_lt.mp hlater) (k.evolves.floors scope)
    rw [hsame] at hlt ⊢
    exact le_trans (h.attained scope hlt) k.evolves.last

theorem gradual_insertEvent (db : Database) (c : CheckedAppend) :
    Gradual db (insertEvent db c) := by
  have hstate : ∀ scope, floorOf (insertEvent db c) scope = floorOf db scope ∧
      snapshotOf (insertEvent db c) scope = snapshotOf db scope := by
    intro scope
    unfold floorOf snapshotOf insertEvent
    rw [scopeState_setScope]
    split
    · rename_i hs
      rw [hs]
      exact ⟨rfl, rfl⟩
    · exact ⟨rfl, rfl⟩
  refine ⟨⟨⟨Nat.le_succ _, ?_, ?_, ?_⟩, ?_, ?_⟩, ?_⟩
  · intro scope
    rw [(hstate scope).1]
  · intro e he
    rcases List.mem_append.mp he with he | he
    · exact .inl he
    · rw [List.mem_singleton.mp he]
      exact .inr (Nat.lt_succ_self _)
  · intro e he hn
    exact absurd (List.mem_append_left _ he) hn
  · intro scope
    rw [(hstate scope).2]
  · intro scope hlt
    rw [(hstate scope).1] at hlt
    exact absurd hlt (lt_irrefl _)
  · intro scope hlt
    rw [(hstate scope).1] at hlt
    exact absurd hlt (lt_irrefl _)

theorem floorOf_lowered (db : Database) (scope other : Scope) (through snapshot count bytes : Nat) :
    floorOf (lowered db scope through snapshot count bytes) other =
      if other = scope then max (floorOf db scope) through else floorOf db other := by
  unfold floorOf lowered
  rw [scopeState_setScope]
  split
  · rfl
  · rfl

theorem moves_lowered (db : Database) (scope : Scope) (through snapshot count bytes : Nat) :
    Moves db (lowered db scope through snapshot count bytes) := by
  refine ⟨⟨le_rfl, ?_, ?_, ?_⟩, ?_, ?_⟩
  · intro other
    rw [floorOf_lowered]
    split
    · rename_i hs
      rw [hs]
      exact le_max_left _ _
    · exact le_rfl
  · intro e he
    exact .inl (mem_lowered.mp he).1
  · intro e he hn
    have hgone : e.scope = scope ∧ e.cursor ≤ through := by
      by_contra hstay
      refine hn (mem_lowered.mpr ⟨he, fun hs => ?_⟩)
      exact not_le.mp fun hle => hstay ⟨hs, hle⟩
    rw [floorOf_lowered, if_pos hgone.1]
    exact le_trans hgone.2 (le_max_right _ _)
  · intro other
    unfold snapshotOf lowered
    rw [scopeState_setScope]
    split
    · rename_i hs
      rw [hs]
      exact le_max_left _ _
    · exact le_rfl
  · intro other hlt e he hs
    rw [floorOf_lowered] at hlt ⊢
    split
    · rename_i hother
      rw [if_pos hother, hother] at hlt
      have habove := (mem_lowered.mp he).2 (hs.trans hother)
      omega
    · rename_i hother
      rw [if_neg hother] at hlt
      exact absurd hlt (lt_irrefl _)

theorem gradual_lowered {through : Nat} (snapshot count bytes : Nat) (h : through ≤ db.lastCursor) :
    Gradual db (lowered db scope through snapshot count bytes) := by
  refine ⟨moves_lowered .., ?_⟩
  intro other hlt
  rw [floorOf_lowered] at hlt ⊢
  split
  · rename_i hother
    rw [if_pos hother, hother] at hlt
    change max (floorOf db scope) through ≤ db.lastCursor
    omega
  · rename_i hother
    rw [if_neg hother] at hlt
    exact absurd hlt (lt_irrefl _)

theorem retain_gradual {row : EventRow} (hi : Accounted db) (h : retain env db row = .ok db') :
    Accounted db' ∧ Gradual db db' ∧ WithinLimits env db' row.scope ∧
      (∀ scope, scope ≠ row.scope → eventsOf db' scope = eventsOf db scope) ∧
      ∀ e ∈ db'.events, e ∈ db.events := by
  have hsame := retain_spec h
  obtain ⟨hshape, hlimits⟩ := enforceScopeRetention_spec hi rfl
  have hof : ∀ scope, eventsOf db' scope = eventsOf (enforceScopeRetention db row.scope row.cursor
      (retentionLimits env row.scope).1 (retentionLimits env row.scope).2).1 scope := by
    exact hsame.eventsOf
  refine ⟨?_, ?_, ?_, ?_, ?_⟩
  · rcases hshape with heq | ⟨through, _, heq⟩
    · rw [heq] at hsame
      exact hi.of_same hsame
    · rw [heq] at hsame
      exact (hi.lowered row.scope through row.cursor).of_same hsame
  · rcases hshape with heq | ⟨through, hkept, heq⟩
    · rw [heq] at hsame
      exact Gradual.of_same hsame
    rw [heq] at hsame
    obtain ⟨e, he⟩ := List.exists_mem_of_ne_nil _ hkept
    have habove := List.mem_filter.mp he
    have hlast := hi.ordered.bounded e (mem_eventsOf.mp habove.1).1
    have hlt : through < e.cursor := by simpa using habove.2
    exact (gradual_lowered _ _ _ (by omega)).trans (Gradual.of_same hsame)
  · unfold WithinLimits
    rw [hof]
    exact hlimits
  · intro scope hne
    rw [hof]
    rcases hshape with heq | ⟨through, _, heq⟩
    · rw [heq]
    · rw [heq, eventsOf_lowered, if_neg hne]
  · intro e he
    rw [hsame.events] at he
    rcases hshape with heq | ⟨through, _, heq⟩
    · rwa [heq] at he
    · rw [heq] at he
      exact (mem_lowered.mp he).1

theorem append_gradual {request : AppendRequest}
    {draws : Draws} {record : Record} (hi : Accounted db)
    (h : append env db request draws = .ok (record, true, db')) :
    ∃ c, record = eventRecord (newEvent db c) ∧ Accounted db' ∧
      Gradual (insertEvent db c) db' ∧ WithinLimits env db' c.scope ∧
      (∀ scope, scope ≠ c.scope → eventsOf db' scope = eventsOf db scope) ∧
      ∀ e ∈ db'.events, e ∈ db.events ∨ e = newEvent db c := by
  obtain ⟨c, projected, _, _, _, hrecord, hp, hk⟩ := append_inserted h
  obtain ⟨transcript, lifecycle, rfl⟩ := projectEvent_spec hp
  have hinsert := hi.insertEvent c
  have hproject : SameEvents (insertEvent db c)
      { insertEvent db c with transcript := transcript, lifecycle := lifecycle } :=
        SameEvents.of_eq rfl rfl rfl
  obtain ⟨hacc, hgrad, hlimits, hothers, hold⟩ :=
    retain_gradual (hinsert.of_same hproject) hk
  refine ⟨c, hrecord, hacc, (Gradual.of_same hproject).trans hgrad, hlimits, ?_, ?_⟩
  · intro scope hne
    rw [hothers scope hne]
    change eventsOf (insertEvent db c) scope = _
    rw [eventsOf_insertEvent, if_neg hne]
  · intro e he
    rcases List.mem_append.mp (hold e he) with he | he
    · exact .inl he
    · exact .inr (List.mem_singleton.mp he)

theorem compact_spec {name : String}
    {through snapshot : Nat} {threadId : Option String} {result : CompactionResult}
    (h : compact env db name through snapshot threadId = .ok (result, db')) :
    ∃ scope, normalizeScope name threadId = .ok scope ∧
      SameEvents (lowered db scope through snapshot (removedThrough db scope through).length
        (bytesOf (removedThrough db scope through))) db' ∧ db'.transcript = db.transcript := by
  unfold compact at h
  obtain ⟨scope, hs, h⟩ := except_bind_eq_ok.mp h
  rw [refuse_bind_eq_ok] at h
  obtain ⟨_, h⟩ := h
  obtain ⟨pruned, hp, h⟩ := except_bind_eq_ok.mp h
  cases h
  rw [removedThrough_eq] at hp
  refine ⟨scope, hs, prune_sameEvents hp, ?_⟩
  obtain ⟨tombstones, legacy, rfl, _⟩ := prune_spec hp
  rfl

/-- A thread without its events; its floor covers them. -/
def purged (db : Database) (scope : Scope) (through snapshot : Nat) : Database :=
  setScope { db with events := db.events.filter fun e => e.scope ≠ scope } scope fun s =>
    { s with
      minimumCursor := max s.minimumCursor through
      snapshotCursor := max s.snapshotCursor snapshot
      retainedCount := 0
      retainedBytes := 0 }

theorem purgeThread_spec {threadId : String}
    {result : CompactionResult} (h : purgeThread env db threadId = .ok (result, db')) :
    ∃ snapshot, SameEvents (purged db (.thread threadId)
      (max (floorOf db (.thread threadId)) (maximum ((eventsOf db (.thread threadId)).map
        EventRow.cursor))) snapshot) db' ∧
      db'.transcript = db.transcript.dropThread threadId := by
  unfold purgeThread at h
  obtain ⟨scope, hs, h⟩ := except_bind_eq_ok.mp h
  have hscope : scope = .thread threadId := by
    unfold normalizeScope at hs
    rw [if_pos rfl] at hs
    simp only [except_map_eq_ok] at hs
    obtain ⟨id, hid, rfl⟩ := hs
    unfold boundedIdentifier at hid
    split at hid
    · cases hid
      rfl
    · cases hid
  subst hscope
  obtain ⟨pruned, hp, h⟩ := except_bind_eq_ok.mp h
  cases h
  obtain ⟨tombstones, legacy, rfl, _⟩ := prune_spec hp
  exact ⟨_, SameEvents.of_eq rfl rfl rfl, rfl⟩

theorem eventsOf_purged (db : Database) (scope other : Scope) (through snapshot : Nat) :
    eventsOf (purged db scope through snapshot) other =
      if other = scope then [] else eventsOf db other := by
  change (db.events.filter _).filter _ = _
  rw [List.filter_filter]
  split
  · rename_i hs
    refine List.filter_eq_nil_iff.mpr fun e _ => ?_
    simp [hs]
  rename_i hs
  refine List.filter_congr fun e _ => ?_
  by_cases he : e.scope = other
  · simp [he, hs]
  · simp [he]

theorem Accounted.purged (h : Accounted db) (scope : Scope)
    (through snapshot : Nat) : Accounted (purged db scope through snapshot) := by
  have hmem : ∀ e ∈ (Journal.purged db scope through snapshot).events, e ∈ db.events :=
    fun e he => List.mem_of_mem_filter he
  refine ⟨⟨h.ordered.sorted.filter _, ?_⟩, ?_, ?_, ?_⟩
  · intro e he
    exact h.ordered.bounded e (hmem e he)
  · intro e he
    exact h.positive e (hmem e he)
  · intro other
    rw [eventsOf_purged]
    unfold Journal.purged
    rw [scopeState_setScope]
    split
    · rfl
    · exact h.counted other
  · intro other
    rw [eventsOf_purged]
    unfold Journal.purged
    rw [scopeState_setScope]
    split
    · rfl
    · exact h.weighed other

theorem gradual_purged {through : Nat} (snapshot : Nat)
    (hcover : ∀ e ∈ eventsOf db scope, e.cursor ≤ through)
    (hbound : through ≤ max (floorOf db scope) db.lastCursor) :
    Gradual db (purged db scope through snapshot) := by
  have hfloor : ∀ other, floorOf (purged db scope through snapshot) other =
      if other = scope then max (floorOf db scope) through else floorOf db other := by
    intro other
    unfold floorOf purged
    rw [scopeState_setScope]
    split
    · rfl
    · rfl
  have hmem : ∀ e, e ∈ (purged db scope through snapshot).events ↔
      e ∈ db.events ∧ e.scope ≠ scope := by
    intro e
    change e ∈ db.events.filter _ ↔ _
    simp
  refine ⟨⟨⟨le_rfl, ?_, ?_, ?_⟩, ?_, ?_⟩, ?_⟩
  · intro other
    rw [hfloor]
    split
    · rename_i hs
      rw [hs]
      exact le_max_left _ _
    · exact le_rfl
  · intro e he
    exact .inl ((hmem e).mp he).1
  · intro e he hn
    have hs : e.scope = scope := by
      by_contra hs
      exact hn ((hmem e).mpr ⟨he, hs⟩)
    have hle := hcover e (mem_eventsOf.mpr ⟨he, hs⟩)
    rw [hfloor, if_pos hs]
    exact le_trans hle (le_max_right _ _)
  · intro other
    unfold snapshotOf purged
    rw [scopeState_setScope]
    split
    · rename_i hs
      rw [hs]
      exact le_max_left _ _
    · exact le_rfl
  · intro other hlt e he hs
    rw [hfloor] at hlt
    split at hlt
    · rename_i hother
      exact absurd (hs.trans hother) ((hmem e).mp he).2
    · exact absurd hlt (lt_irrefl _)
  · intro other hlt
    rw [hfloor] at hlt ⊢
    split
    · rename_i hother
      rw [if_pos hother, hother] at hlt
      change max (floorOf db scope) through ≤ db.lastCursor
      omega
    · rename_i hother
      rw [if_neg hother] at hlt
      exact absurd hlt (lt_irrefl _)

theorem recount_same (h : Accounted db) : SameEvents db (recount db) := by
  refine ⟨rfl, rfl, ?_⟩
  intro scope
  have hcount := h.counted scope
  have hbytes := h.weighed scope
  unfold scopeState at hcount hbytes ⊢
  unfold recount
  rw [Dict.get?_mapValues]
  cases hg : db.scopes.get? scope with
  | none => rfl
  | some state =>
    rw [hg] at hcount hbytes
    simp only [Option.map_some, Option.getD_some] at hcount hbytes ⊢
    change ScopeState.mk _ _ _ (eventsOf db scope).length (bytesOf (eventsOf db scope)) = state
    rw [← hcount, ← hbytes]

/-! ## Steps -/

/-- The books of a store: its counters, its limits, and what became of each event ever
inserted. -/
structure Retained (env : Environment) (s : Store) : Prop where
  accounted : Accounted s.db
  limited : ∀ scope, WithinLimits env s.db scope
  logged : ∀ e ∈ s.db.events, .event (eventRecord e) ∈ s.log
  deleted : ∀ r, .event r ∈ s.log →
    (∃ e ∈ s.db.events, eventRecord e = r) ∨ r.cursor ≤ floorOf s.db r.scope

theorem retained_initial (env : Environment) : Retained env .initial where
  accounted := accounted_empty
  limited scope := .inl ⟨Nat.zero_le _, Nat.zero_le _⟩
  logged e he := by cases he
  deleted r hr := by cases hr

theorem WithinLimits.of_le {db db' : Database} (h : WithinLimits env db scope)
    (hlength : (eventsOf db' scope).length ≤ (eventsOf db scope).length)
    (hbytes : bytesOf (eventsOf db' scope) ≤ bytesOf (eventsOf db scope)) :
    WithinLimits env db' scope := by
  rcases h with ⟨hcount, hsum⟩ | hone
  · exact .inl ⟨le_trans hlength hcount, le_trans hbytes hsum⟩
  cases hn : eventsOf db' scope with
  | nil =>
    left
    rw [hn]
    exact ⟨Nat.zero_le _, Nat.zero_le _⟩
  | cons e rest =>
    right
    rw [hn] at hlength ⊢
    rw [List.length_cons] at hlength ⊢
    omega

theorem WithinLimits.of_same {db db' : Database}
    (h : WithinLimits env db scope) (hs : SameEvents db db') : WithinLimits env db' scope := by
  unfold WithinLimits
  rw [hs.eventsOf]
  exact h

theorem Retained.of_evolves {log more : List Entry}
    (h : Retained env ⟨db, log⟩) (ha : Accounted db') (hl : ∀ scope, WithinLimits env db' scope)
    (hev : Evolves db db') (hold : ∀ e ∈ db'.events, e ∈ db.events)
    (hmore : ∀ r, Entry.event r ∉ more) : Retained env ⟨db', log ++ more⟩ where
  accounted := ha
  limited := hl
  logged e he := List.mem_append_left _ (h.logged e (hold e he))
  deleted r hr := by
    rcases List.mem_append.mp hr with hr | hr
    · rcases h.deleted r hr with ⟨e, he, rfl⟩ | hle
      · by_cases hm : e ∈ db'.events
        · exact .inl ⟨e, hm, rfl⟩
        · exact .inr (hev.gone e he hm)
      · exact .inr (le_trans hle (hev.floors r.scope))
    · exact absurd hr (hmore r)

section

variable {env : Environment} {K : Prop} {s t : Store}

section

variable (hi : Accounted s.db) (h : Step env K s t)

include hi h

theorem Step.gradual (hk : ¬ K) :
    Gradual s.db t.db := by
  cases h with
  | append appended =>
    obtain ⟨c, _, _, hgrad, _⟩ := append_gradual hi appended
    exact (gradual_insertEvent _ c).trans hgrad
  | metadata ledger outbox tombstones legacyImports =>
    exact Gradual.of_same (SameEvents.of_eq rfl rfl rfl)
  | compact allowed compacted => exact absurd allowed hk
  | purge purged =>
    obtain ⟨snapshot, hsame, _⟩ := purgeThread_spec purged
    refine (gradual_purged snapshot ?_ ?_).trans (Gradual.of_same hsame)
    · intro e he
      have hle := le_maximum (List.mem_map_of_mem (f := EventRow.cursor) he)
      exact le_trans hle (le_max_right _ _)
    · refine max_le (le_max_left _ _) (le_trans ?_ (le_max_right _ _))
      refine maximum_le fun cursor hc => ?_
      obtain ⟨e, he, rfl⟩ := List.mem_map.mp hc
      exact hi.ordered.bounded e (mem_eventsOf.mp he).1
  | recount => exact Gradual.of_same (recount_same hi)

theorem Step.moves : Moves s.db t.db := by
  by_cases hk : K
  · cases h with
    | append appended => exact (Step.gradual hi (.append appended) not_false).toMoves
    | metadata ledger outbox tombstones legacyImports =>
      exact (Gradual.of_same (SameEvents.of_eq (by rfl) (by rfl) (by rfl))).toMoves
    | compact allowed compacted =>
      obtain ⟨scope, _, hsame, _⟩ := compact_spec compacted
      exact (moves_lowered _ scope _ _ _ _).same hsame
    | purge purged => exact (Step.gradual hi (.purge purged) not_false).toMoves
    | recount => exact (Gradual.of_same (recount_same hi)).toMoves
  · exact (h.gradual hi hk).toMoves

theorem Step.accounted : Accounted t.db := by
  cases h with
  | append appended =>
    obtain ⟨_, _, hacc, _⟩ := append_gradual hi appended
    exact hacc
  | metadata ledger outbox tombstones legacyImports =>
    exact hi.of_same (SameEvents.of_eq (by rfl) (by rfl) (by rfl))
  | compact allowed compacted =>
    obtain ⟨scope, _, hsame, _⟩ := compact_spec compacted
    exact (hi.lowered scope _ _).of_same hsame
  | purge purged =>
    obtain ⟨snapshot, hsame, _⟩ := purgeThread_spec purged
    exact (hi.purged _ _ _).of_same hsame
  | recount => exact hi.of_same (recount_same hi)

end

theorem Step.retained (hi : Retained env s) (h : Step env K s t) : Retained env t := by
  have hmoves := h.moves hi.accounted
  have hacc := h.accounted hi.accounted
  cases h with
  | @append db db' log request draws record appended =>
    obtain ⟨c, hrecord, _, hgrad, hlimits, hothers, hold⟩ :=
      append_gradual hi.accounted appended
    refine ⟨hacc, ?_, ?_, ?_⟩
    · intro scope
      by_cases hs : scope = c.scope
      · rw [hs]
        exact hlimits
      have hbefore := hi.limited scope
      unfold WithinLimits at hbefore ⊢
      rw [hothers scope hs]
      exact hbefore
    · intro e he
      rcases hold e he with he | rfl
      · exact List.mem_append_left _ (hi.logged e he)
      · rw [← hrecord]
        exact List.mem_append_right _ List.mem_cons_self
    · intro r hr
      rcases List.mem_append.mp hr with hr | hr
      · rcases hi.deleted r hr with ⟨e, he, rfl⟩ | hle
        · by_cases hm : e ∈ db'.events
          · exact .inl ⟨e, hm, rfl⟩
          · exact .inr (hmoves.evolves.gone e he hm)
        · exact .inr (le_trans hle (hmoves.evolves.floors r.scope))
      · cases List.mem_singleton.mp hr
        rw [hrecord]
        by_cases hm : newEvent db c ∈ db'.events
        · exact .inl ⟨_, hm, rfl⟩
        · exact .inr (hgrad.evolves.gone _ (List.mem_append_right _ List.mem_cons_self) hm)
  | @metadata db log ledger outbox tombstones legacyImports =>
    have hsame : SameEvents db { db with
        ledger := ledger
        outbox := outbox
        tombstones := tombstones
        legacyImports := legacyImports } := SameEvents.of_eq rfl rfl rfl
    rw [← List.append_nil log]
    exact hi.of_evolves hacc (fun scope => (hi.limited scope).of_same hsame)
      hmoves.evolves (fun e he => he) (fun r hr => by cases hr)
  | @compact db db' log name through snapshot threadId result allowed compacted =>
    obtain ⟨scope, _, hsame, _⟩ := compact_spec compacted
    rw [← List.append_nil log]
    refine hi.of_evolves hacc ?_ hmoves.evolves ?_ (fun r hr => by cases hr)
    · intro other
      refine WithinLimits.of_same ?_ hsame
      refine (hi.limited other).of_le ?_ ?_
      · have hlength := length_removed_kept db scope through
        rw [eventsOf_lowered]
        split
        · rename_i hs
          rw [hs]
          change _ ≤ (eventsOf db scope).length
          omega
        · exact le_rfl
      · have hbytes := bytes_removed_kept db scope through
        rw [eventsOf_lowered]
        split
        · rename_i hs
          rw [hs]
          change _ ≤ bytesOf (eventsOf db scope)
          omega
        · exact le_rfl
    · intro e he
      rw [hsame.events] at he
      exact (mem_lowered.mp he).1
  | @purge db db' log threadId result purged =>
    obtain ⟨snapshot, hsame, _⟩ := purgeThread_spec purged
    refine hi.of_evolves hacc ?_ hmoves.evolves ?_ ?_
    · intro other
      refine WithinLimits.of_same ?_ hsame
      refine (hi.limited other).of_le ?_ ?_
      · rw [eventsOf_purged]
        split
        · exact Nat.zero_le _
        · exact le_rfl
      · rw [eventsOf_purged]
        split
        · exact Nat.zero_le _
        · exact le_rfl
    · intro e he
      rw [hsame.events] at he
      exact List.mem_of_mem_filter he
    · intro r hr
      cases List.mem_singleton.mp hr
  | @recount db log =>
    have hsame := recount_same hi.accounted
    rw [← List.append_nil log]
    exact hi.of_evolves hacc (fun scope => (hi.limited scope).of_same hsame)
      hmoves.evolves (fun e he => he) (fun r hr => by cases hr)

end

section

variable (env : Environment)

theorem Store.run_retained (changes : List Change) : Retained env (Store.run env changes) :=
  Store.run_invariant (retained_initial env) (fun _ _ hi h => h.retained hi) changes

/-- A whole call moves the tables, and gradually unless it compacts. -/
theorem Change.moves (change : Change) {s : Store} (hi : Retained env s) :
    Moves s.db (change.perform env s).db := by
  by_cases hc : change.Compacts
  · cases change with
    | compact scope through snapshot threadId =>
      change Moves s.db (Store.commit _ _ s).2.db
      unfold Store.commit
      cases hr : Journal.compact env s.db scope through snapshot threadId with
      | error e =>
        simp only [hr]
        exact (Gradual.refl s.db).toMoves
      | ok r =>
        simp only [hr, List.append_nil]
        have hstep : Step env True ⟨s.db, s.log⟩ ⟨r.2, s.log⟩ := Step.compact trivial hr
        exact hstep.moves hi.accounted
    | _ => exact absurd hc not_false
  · have hsteps : Steps env False s (change.perform env s) := (change.perform_steps env s).mono hc
    have hkeep := hsteps.keeps (I := fun t => Retained env t ∧ Gradual s.db t.db)
      (fun t u ht h => ⟨h.retained ht.1, ht.2.trans (h.gradual ht.1.accounted not_false)⟩)
      ⟨hi, Gradual.refl s.db⟩
    exact hkeep.2.toMoves

theorem Store.run_snoc (changes : List Change) (change : Change) :
    Store.run env (changes ++ [change]) = change.perform env (Store.run env changes) :=
  Store.run_append changes [change]

theorem Store.run_rises (changes more : List Change) (scope : Scope) :
    floorOf (Store.run env changes).db scope ≤ floorOf (Store.run env (changes ++ more)).db scope ∧
      snapshotOf (Store.run env changes).db scope ≤
        snapshotOf (Store.run env (changes ++ more)).db scope := by
  induction more using List.reverseRecOn with
  | nil => simp
  | append_singleton more change ih =>
    have hmoves := change.moves env (Store.run_retained env (changes ++ more))
    rw [← List.append_assoc, Store.run_snoc]
    exact ⟨le_trans ih.1 (hmoves.evolves.floors scope), le_trans ih.2 (hmoves.snapshots scope)⟩

/-- The call that set the floor of a scope: what is retained at or below the floor was
appended after it. -/
def FloorSet (changes : List Change) (scope : Scope) : Prop :=
  ∃ earlier change later, changes = earlier ++ change :: later ∧
    floorOf (Store.run env earlier).db scope <
      floorOf (Store.run env (earlier ++ [change])).db scope ∧
    floorOf (Store.run env (earlier ++ [change])).db scope =
      floorOf (Store.run env changes).db scope ∧
    ∀ e ∈ eventsOf (Store.run env changes).db scope,
      e.cursor ≤ floorOf (Store.run env changes).db scope →
        (Store.run env (earlier ++ [change])).db.lastCursor < e.cursor

theorem Store.run_floorSet (changes : List Change) (scope : Scope)
    (h : 0 < floorOf (Store.run env changes).db scope) : FloorSet env changes scope := by
  induction changes using List.reverseRecOn with
  | nil => exact absurd h (lt_irrefl _)
  | append_singleton changes change ih =>
    have hmoves := change.moves env (Store.run_retained env changes)
    have hrun := Store.run_snoc env changes change
    rw [← hrun] at hmoves
    by_cases hraised : floorOf (Store.run env changes).db scope <
        floorOf (Store.run env (changes ++ [change])).db scope
    · refine ⟨changes, change, [], rfl, hraised, rfl, ?_⟩
      intro e he hle
      have hin := mem_eventsOf.mp he
      exact absurd (hmoves.raised scope hraised e hin.1 hin.2) (not_lt.mpr hle)
    have hsame : floorOf (Store.run env (changes ++ [change])).db scope =
        floorOf (Store.run env changes).db scope :=
      le_antisymm (not_lt.mp hraised) (hmoves.evolves.floors scope)
    rw [hsame] at h
    obtain ⟨earlier, setter, later, rfl, hlt, heq, hafter⟩ := ih h
    refine ⟨earlier, setter, later ++ [change], by simp, hlt, heq.trans hsame.symm, ?_⟩
    intro e he hle
    have hin := mem_eventsOf.mp he
    rcases hmoves.evolves.fresh e hin.1 with hold | hnew
    · rw [hsame] at hle
      exact hafter e (mem_eventsOf.mpr ⟨hold, hin.2⟩) hle
    have hsplit : earlier ++ setter :: later = (earlier ++ [setter]) ++ later := by simp
    have hlast := (Store.run_steps env (earlier ++ [setter]) later).keeps
      (I := fun t => Retained env t ∧
        (Store.run env (earlier ++ [setter])).db.lastCursor ≤ t.db.lastCursor)
      (fun t u ht hstep => ⟨hstep.retained ht.1,
        le_trans ht.2 (hstep.moves ht.1.accounted).evolves.last⟩)
      ⟨Store.run_retained env _, le_rfl⟩
    rw [← hsplit] at hlast
    exact lt_of_le_of_lt hlast.2 hnew

theorem Store.run_lastCursor_le (env : Environment) (changes more : List Change) :
    (Store.run env changes).db.lastCursor ≤
      (Store.run env (changes ++ more)).db.lastCursor := by
  induction more using List.reverseRecOn with
  | nil => rw [List.append_nil]
  | append_singleton more change ih =>
    have hmoves := change.moves env (Store.run_retained env (changes ++ more))
    rw [← List.append_assoc, Store.run_snoc]
    exact ih.trans hmoves.evolves.last

/-- A deleted event never comes back: of the events that the table held at some time, those that it
holds later were there at every time between. -/
theorem Store.run_neverRestored (env : Environment) (changes more later : List Change) :
    {e | e ∈ (Store.run env changes).db.events ∧
        e ∈ (Store.run env (changes ++ more ++ later)).db.events} ⊆
      {e | e ∈ (Store.run env (changes ++ more)).db.events} := by
  rintro e ⟨hold, hnew⟩
  have hbound : e.cursor ≤ (Store.run env (changes ++ more)).db.lastCursor :=
    ((Store.run_retained env changes).accounted.ordered.bounded e hold).trans
      (Store.run_lastCursor_le env changes more)
  induction later using List.reverseRecOn with
  | nil =>
    rw [List.append_nil] at hnew
    exact hnew
  | append_singleton later change ih =>
    have hmoves := change.moves env (Store.run_retained env (changes ++ more ++ later))
    rw [← List.append_assoc, Store.run_snoc] at hnew
    rcases hmoves.evolves.fresh e hnew with hearlier | hfresh
    · exact ih hearlier
    have hlast := Store.run_lastCursor_le env (changes ++ more) later
    omega

/-- The books of every scope hold after every run and at every append inside a later
transaction; floors and snapshots only rise; and events at or below a floor are younger
than the call that set it. -/
theorem Store.run_retention (changes : List Change) :
    Retained env (Store.run env changes) ∧
      (∀ more scope,
        floorOf (Store.run env changes).db scope ≤
            floorOf (Store.run env (changes ++ more)).db scope ∧
          snapshotOf (Store.run env changes).db scope ≤
            snapshotOf (Store.run env (changes ++ more)).db scope) ∧
      (∀ scope, floorOf (Store.run env changes).db scope = 0 ∨ FloorSet env changes scope) ∧
      (∀ request draws record inserted db',
        Journal.append env (Store.run env changes).db request draws = .ok (record, inserted, db') →
          Accounted db' ∧ ∀ scope, WithinLimits env db' scope) ∧
      (∀ operationId isFull events results db',
        appendEvents env operationId isFull events (Store.run env changes).db =
            .ok (results, db') →
          Accounted db' ∧ ∀ scope, WithinLimits env db' scope) := by
  have hbooks := Store.run_retained env changes
  have hinside : ∀ db' log, Steps env True (Store.run env changes) ⟨db', log⟩ →
      Accounted db' ∧ ∀ scope, WithinLimits env db' scope := by
    intro db' log hsteps
    have hafter := hsteps.keeps (fun _ _ hi h => h.retained hi) hbooks
    exact ⟨hafter.accounted, hafter.limited⟩
  refine ⟨hbooks, fun more scope => Store.run_rises env changes more scope, ?_, ?_, ?_⟩
  · intro scope
    rcases Nat.eq_zero_or_pos (floorOf (Store.run env changes).db scope) with hzero | hpos
    · exact .inl hzero
    · exact .inr (Store.run_floorSet env changes scope hpos)
  · intro request draws record inserted db' h
    exact hinside db' _ (append_steps _ h)
  · intro operationId isFull events results db' h
    exact hinside db' _ (appendEvents_steps h)

end

end CodexBridge.Journal
