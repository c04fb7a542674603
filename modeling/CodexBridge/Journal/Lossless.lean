import CodexBridge.Journal.Replay

/-! # What a consumer of the journal misses

A consumer that is not disturbed between two statements of one call receives every
matching event, or learns that its cursor expired. Two kinds of transaction disturb
it: one that deletes an event it is about to select, and one that commits an event
after it found none and before it reads the last cursor.
-/

namespace CodexBridge.Journal

def Due (filters : Filters) (s : Session) (e : EventRow) : Prop :=
  filters.matchesEvent e.scope = true ∧ s.cursor < e.cursor

instance (filters : Filters) (s : Session) (e : EventRow) : Decidable (Due filters s e) :=
  inferInstanceAs (Decidable (_ ∧ _))

structure Lossless (filters : Filters) (start : Nat) (s : Session) : Prop where
  increasing : s.delivered.Pairwise fun a b => a.cursor < b.cursor
  genuine : ∀ r ∈ s.delivered, ∃ e ∈ s.committed, r = eventRecord e ∧
    filters.matchesEvent e.scope = true ∧ start < e.cursor
  complete : ∀ e ∈ s.committed, filters.matchesEvent e.scope = true → start < e.cursor →
    e.cursor ≤ s.cursor → eventRecord e ∈ s.delivered

/-- While an event is due, the next call raises or moves the cursor. -/
def Progress (env : Environment) (filters : Filters) (s : Session) : Prop :=
  s.reading = .idle → ∀ limit n final, batchLimit env limit = .ok n →
    (∃ e ∈ s.committed, Due filters s e) →
      s.cursor < (cursorFloor s.db filters).1 ∨
        ∃ t, Runs.exec (step env filters) s [.floor limit final, .rows, .last] = some t ∧
          s.cursor < t.cursor

/-- Whether the transaction leaves the call under way undisturbed. -/
def undisturbed (env : Environment) (filters : Filters) (s : Session) : Statement → Bool
  | .write w =>
    match w.commit env s.db with
    | .error _ => true
    | .ok db =>
      match s.reading with
      | .idle => true
      | .checked _ _ _ => ∀ e ∈ s.db.events, Due filters s e → e ∈ db.events
      | .selected _ _ final rows =>
        final = true → rows = [] → ∀ e ∈ freshEvents s.db db, ¬ Due filters s e
  | _ => true

abbrev Undisturbed (env : Environment) (filters : Filters) (s : Session) (a : Statement) : Prop :=
  undisturbed env filters s a = true

/-! ## Batches -/

theorem prefix_takeBatch (env : Environment) (limit count bytes : Nat) (rows : List EventRow) :
    takeBatch env limit count bytes rows <+: rows := by
  induction rows generalizing count bytes with
  | nil => exact List.prefix_rfl
  | cons row rest ih =>
    unfold takeBatch
    split
    · exact List.nil_prefix
    split
    · exact List.nil_prefix
    · exact List.cons_prefix_cons.mpr ⟨rfl, ih (count + 1) (bytes + row.payloadBytes)⟩

theorem takeBatch_ne_nil (env : Environment) {limit : Nat} (hl : 0 < limit) {rows : List EventRow}
    (hr : rows ≠ []) : takeBatch env limit 0 0 rows ≠ [] := by
  cases rows with
  | nil => exact absurd rfl hr
  | cons row rest =>
    unfold takeBatch
    rw [if_neg (by omega), if_neg (by omega)]
    exact List.cons_ne_nil _ _

theorem mem_prefix_of_le {taken rows : List EventRow} (hp : taken <+: rows)
    (hs : rows.Pairwise fun a b => a.cursor < b.cursor) {last e : EventRow}
    (hlast : last ∈ taken) (he : e ∈ rows) (hle : e.cursor ≤ last.cursor) : e ∈ taken := by
  obtain ⟨rest, rfl⟩ := hp
  rcases List.mem_append.mp he with he | he
  · exact he
  · have hlt := (List.pairwise_append.mp hs).2.2 last hlast e he
    omega

theorem le_getLast {rows : List EventRow} (hs : rows.Pairwise fun a b => a.cursor < b.cursor)
    {last e : EventRow} (hlast : rows.getLast? = some last) (he : e ∈ rows) :
    e.cursor ≤ last.cursor := by
  obtain ⟨front, rfl⟩ := List.getLast?_eq_some_iff.mp hlast
  rcases List.mem_append.mp he with he | he
  · exact le_of_lt ((List.pairwise_append.mp hs).2.2 e he last List.mem_cons_self)
  · rw [List.mem_singleton.mp he]

theorem batchLimit_pos {env : Environment} {limit : Option Int} {n : Nat}
    (h : batchLimit env limit = .ok n) : 0 < n := by
  have hmax := env.positive.1
  unfold batchLimit at h
  cases limit with
  | none =>
    cases h
    exact hmax
  | some k =>
    simp only at h
    split at h
    · cases h
    cases h
    have hk : 0 < k.toNat := by omega
    exact lt_min hk hmax

theorem le_maximum {xs : List Nat} {x : Nat} (h : x ∈ xs) : x ≤ maximum xs :=
  (le_foldl_max xs 0).2 x h

theorem maximum_le {xs : List Nat} {bound : Nat} (h : ∀ x ∈ xs, x ≤ bound) :
    maximum xs ≤ bound := by
  have hgen : ∀ a, a ≤ bound → (∀ x ∈ xs, x ≤ bound) → xs.foldl max a ≤ bound := by
    induction xs with
    | nil => exact fun a ha _ => ha
    | cons y ys ih =>
      intro a ha hall
      have hy := hall y List.mem_cons_self
      exact ih (fun x hx => h x (List.mem_cons_of_mem y hx)) (max a y) (max_le ha hy)
        fun x hx => hall x (List.mem_cons_of_mem y hx)
  exact hgen 0 (Nat.zero_le _) h

theorem floorOf_le_cursorFloor {db : Database} {filters : Filters} {scope : Scope}
    (h : filters.matchesEvent scope = true) : floorOf db scope ≤ (cursorFloor db filters).1 := by
  unfold floorOf scopeState
  cases hs : db.scopes.get? scope with
  | none => exact Nat.zero_le _
  | some state =>
    have hm : (scope, state) ∈ db.scopes.entries.filter fun e => filters.matchesState e.1 :=
      List.mem_filter.mpr ⟨(Dict.get?_eq_some_iff _ _ _).mp hs, matchesState_of_matchesEvent h⟩
    exact le_maximum (List.mem_map_of_mem (List.mem_map_of_mem hm))

/-- The log of commits agrees with the table. -/
structure Coherent (s : Session) : Prop where
  ordered : Ordered s.db
  assigned : ∀ e ∈ s.committed, e.cursor ≤ s.db.lastCursor
  retained : ∀ e ∈ s.db.events, e ∈ s.committed
  deleted : ∀ e ∈ s.committed, e ∉ s.db.events → e.cursor ≤ floorOf s.db e.scope

/-- What the call under way knows. After the floor every due event is in the table; after
the rows a due event is one of them or above them all. -/
def Aware (filters : Filters) (s : Session) : Prop :=
  match s.reading with
  | .idle => True
  | .checked n _ _ => 0 < n ∧ ∀ e ∈ s.committed, Due filters s e → e ∈ s.db.events
  | .selected n _ final rows =>
    0 < n ∧ rows.Pairwise (fun a b => a.cursor < b.cursor) ∧
      (∀ r ∈ rows, r ∈ s.committed ∧ Due filters s r) ∧
      ∀ e ∈ s.committed, Due filters s e →
        e ∈ rows ∨ (rows ≠ [] ∧ ∀ r ∈ rows, r.cursor < e.cursor) ∨ (rows = [] ∧ final = false)

structure Consuming (filters : Filters) (start : Nat) (s : Session) : Prop where
  coherent : Coherent s
  aware : Aware filters s
  lossless : Lossless filters start s
  behind : ∀ r ∈ s.delivered, r.cursor ≤ s.cursor
  ahead : start ≤ s.cursor
  assigned : s.cursor ≤ max start s.db.lastCursor

theorem consuming_start (filters : Filters) (start : Nat) :
    Consuming filters start (.start start) where
  coherent := by
    refine ⟨⟨List.Pairwise.nil, ?_⟩, ?_, ?_, ?_⟩
    · intro e he
      cases he
    · intro e he
      cases he
    · intro e he
      cases he
    · intro e he
      cases he
  aware := trivial
  lossless := by
    refine ⟨List.Pairwise.nil, ?_, ?_⟩
    · intro r hr
      cases hr
    · intro e he
      cases he
  behind r hr := by cases hr
  ahead := le_rfl
  assigned := le_max_left _ _

/-! ## Steps -/

section

variable {env : Environment} {filters : Filters} {start : Nat} {s t : Session}

theorem mem_freshEvents {db db' : Database} {e : EventRow} :
    e ∈ freshEvents db db' ↔ e ∈ db'.events ∧ db.lastCursor < e.cursor := by
  unfold freshEvents
  rw [List.mem_filter, decide_eq_true_iff]

variable {db : Database}

theorem Coherent.write {w : Write} (hi : Coherent s) (h : w.commit env s.db = .ok db) :
    Coherent { s with db := db, committed := s.committed ++ freshEvents s.db db } := by
  obtain ⟨hev, hor⟩ := Write.evolves h hi.ordered
  refine ⟨hor, ?_, ?_, ?_⟩
  · intro e he
    rcases List.mem_append.mp he with he | he
    · exact le_trans (hi.assigned e he) hev.last
    · exact hor.bounded e (mem_freshEvents.mp he).1
  · intro e he
    rcases hev.fresh e he with hold | hnew
    · exact List.mem_append_left _ (hi.retained e hold)
    · exact List.mem_append_right _ (mem_freshEvents.mpr ⟨he, hnew⟩)
  · intro e he hn
    rcases List.mem_append.mp he with he | he
    · by_cases hm : e ∈ s.db.events
      · exact hev.gone e hm hn
      · exact le_trans (hi.deleted e he hm) (hev.floors e.scope)
    · exact absurd (mem_freshEvents.mp he).1 hn

theorem Aware.write {w : Write} (hc : Coherent s) (hi : Aware filters s)
    (h : w.commit env s.db = .ok db) (hu : Undisturbed env filters s (.write w)) :
    Aware filters { s with db := db, committed := s.committed ++ freshEvents s.db db } := by
  simp only [Undisturbed, undisturbed, h] at hu
  unfold Aware at hi ⊢
  cases hr : s.reading with
  | idle => trivial
  | checked n minimum final =>
    simp only [hr, decide_eq_true_eq] at hi hu ⊢
    refine ⟨hi.1, ?_⟩
    intro e he hd
    rcases List.mem_append.mp he with he | he
    · exact hu e (hi.2 e he hd) hd
    · exact (mem_freshEvents.mp he).1
  | selected n minimum final rows =>
    simp only [hr, decide_eq_true_eq] at hi hu ⊢
    obtain ⟨hn, hs, hrows, hdue⟩ := hi
    refine ⟨hn, hs, fun r hr => ⟨List.mem_append_left _ (hrows r hr).1, (hrows r hr).2⟩, ?_⟩
    intro e he hd
    rcases List.mem_append.mp he with he | he
    · exact hdue e he hd
    -- a new cursor is above every row selected before
    by_cases hempty : rows = []
    · cases final with
      | false => exact .inr (.inr ⟨hempty, rfl⟩)
      | true => exact absurd hd (hu rfl hempty e he)
    refine .inr (.inl ⟨hempty, fun r hr => ?_⟩)
    have hr := hc.assigned r (hrows r hr).1
    have he := (mem_freshEvents.mp he).2
    omega

theorem Consuming.write {w : Write} (hi : Consuming filters start s)
    (h : w.commit env s.db = .ok db) (hu : Undisturbed env filters s (.write w)) :
    Consuming filters start
      { s with db := db, committed := s.committed ++ freshEvents s.db db } where
  coherent := hi.coherent.write h
  aware := hi.aware.write hi.coherent h hu
  lossless := by
    refine ⟨hi.lossless.increasing, ?_, ?_⟩
    · intro r hr
      obtain ⟨e, he, rest⟩ := hi.lossless.genuine r hr
      exact ⟨e, List.mem_append_left _ he, rest⟩
    intro e he hm hs hle
    rcases List.mem_append.mp he with he | he
    · exact hi.lossless.complete e he hm hs hle
    have hnew := (mem_freshEvents.mp he).2
    have hcursor := hi.assigned
    simp only at hle
    omega
  behind := hi.behind
  ahead := hi.ahead
  assigned := by
    have hlast := (Write.evolves h hi.coherent.ordered).1.last
    have hcursor := hi.assigned
    simp only
    omega

theorem Consuming.of_reading {reading : Reading} {expired : Bool} (hi : Consuming filters start s)
    (ha : Aware filters { s with reading := reading, expired := expired }) :
    Consuming filters start { s with reading := reading, expired := expired } where
  coherent := ⟨hi.coherent.ordered, hi.coherent.assigned, hi.coherent.retained, hi.coherent.deleted⟩
  aware := ha
  lossless := ⟨hi.lossless.increasing, hi.lossless.genuine, hi.lossless.complete⟩
  behind := hi.behind
  ahead := hi.ahead
  assigned := hi.assigned

theorem due_retained (hc : Coherent s) (hf : (cursorFloor s.db filters).1 ≤ s.cursor)
    {e : EventRow} (he : e ∈ s.committed) (hd : Due filters s e) : e ∈ s.db.events := by
  by_contra hn
  have hfloor := hc.deleted e he hn
  have hscope : floorOf s.db e.scope ≤ (cursorFloor s.db filters).1 := floorOf_le_cursorFloor hd.1
  have habove := hd.2
  omega

theorem mem_matching {cursor : Nat} {e : EventRow} :
    (e ∈ db.events.filter fun e => cursor < e.cursor && filters.matchesEvent e.scope) ↔
      e ∈ db.events ∧ cursor < e.cursor ∧ filters.matchesEvent e.scope = true := by
  rw [List.mem_filter, Bool.and_eq_true, decide_eq_true_iff]

theorem lastRetained_le (hi : Ordered db) : lastRetained db ≤ db.lastCursor := by
  refine maximum_le ?_
  intro x hx
  obtain ⟨e, he, rfl⟩ := List.mem_map.mp hx
  exact hi.bounded e he

variable {final : Bool}

theorem Aware.rows {n minimum : Nat} (hc : Coherent s) (hn : 0 < n)
    (hdue : ∀ e ∈ s.committed, Due filters s e → e ∈ s.db.events) :
    Aware filters { s with
      reading := .selected n minimum final (selectRows s.db filters s.cursor (n + 1)) } := by
  have hsorted := hc.ordered.sorted.filter fun e =>
    decide (s.cursor < e.cursor) && filters.matchesEvent e.scope
  refine ⟨hn, hsorted.sublist (List.take_sublist _ _), ?_, ?_⟩
  · intro r hr
    obtain ⟨hm, hcur, hmatch⟩ := mem_matching.mp (List.mem_of_mem_take hr)
    exact ⟨hc.retained r hm, hmatch, hcur⟩
  intro e he hd
  have hm := mem_matching.mpr ⟨hdue e he hd, hd.2, hd.1⟩
  have hsplit := List.take_append_drop (n + 1)
    (s.db.events.filter fun e => s.cursor < e.cursor && filters.matchesEvent e.scope)
  rw [← hsplit] at hm
  rcases List.mem_append.mp hm with hm | hm
  · exact .inl hm
  rw [← hsplit] at hsorted
  refine .inr (.inl ⟨?_, fun r hr => (List.pairwise_append.mp hsorted).2.2 r hr e hm⟩)
  intro hnil
  have hlen := List.length_pos_of_mem hm
  rw [List.length_drop] at hlen
  have htake := congrArg List.length hnil
  rw [selectRows, List.length_take] at htake
  simp only [List.length_nil] at htake
  omega

/-- An empty batch passes only events that are not due. -/
theorem Consuming.last_nil {n minimum last : Nat} (hi : Consuming filters start s)
    (hnone : final = true → ∀ e ∈ s.committed, ¬ Due filters s e) (hlast : last ≤ s.db.lastCursor) :
    Consuming filters start (s.receive (assemble env n s.cursor minimum [] last) final) := by
  cases final with
  | false => exact hi.of_reading trivial
  | true =>
    have hdelivered : (s.receive (assemble env n s.cursor minimum [] last) true).delivered =
        s.delivered := List.append_nil _
    refine ⟨⟨hi.coherent.ordered, hi.coherent.assigned, hi.coherent.retained,
      hi.coherent.deleted⟩, trivial, ⟨?_, ?_, ?_⟩, ?_, ?_, ?_⟩
    · rw [hdelivered]
      exact hi.lossless.increasing
    · rw [hdelivered]
      exact hi.lossless.genuine
    · intro e he hm hs hle
      rw [hdelivered]
      by_cases hcur : e.cursor ≤ s.cursor
      · exact hi.lossless.complete e he hm hs hcur
      · exact absurd ⟨hm, by omega⟩ (hnone rfl e he)
    · intro r hr
      rw [hdelivered] at hr
      exact le_trans (hi.behind r hr) (le_max_left _ _)
    · exact le_trans hi.ahead (le_max_left _ _)
    · have hcursor := hi.assigned
      change max s.cursor last ≤ max start s.db.lastCursor
      omega

theorem receive_of_getLast? {n minimum last : Nat} {rows : List EventRow}
    {top : EventRow} (htop : (takeBatch env n 0 0 rows).getLast? = some top) :
    s.receive (assemble env n s.cursor minimum rows last) final =
      { s with
        cursor := top.cursor
        delivered := s.delivered ++ (takeBatch env n 0 0 rows).map eventRecord
        reading := .idle } := by
  have hevents : ((takeBatch env n 0 0 rows).map eventRecord).isEmpty = false := by
    cases ht : takeBatch env n 0 0 rows with
    | nil =>
      rw [ht] at htop
      cases htop
    | cons row rest => rfl
  simp [Session.receive, assemble, hevents, htop]

theorem Consuming.last_cons {n minimum last : Nat} {rows : List EventRow}
    (hi : Consuming filters start s) (hn : 0 < n) (hne : rows ≠ [])
    (hsorted : rows.Pairwise fun a b => a.cursor < b.cursor)
    (hrows : ∀ r ∈ rows, r ∈ s.committed ∧ Due filters s r)
    (hdue : ∀ e ∈ s.committed, Due filters s e → e ∈ rows ∨ ∀ r ∈ rows, r.cursor < e.cursor) :
    Consuming filters start (s.receive (assemble env n s.cursor minimum rows last) final) := by
  have hpre := prefix_takeBatch env n 0 0 rows
  have htaken := takeBatch_ne_nil env hn hne
  obtain ⟨top, htop⟩ : ∃ top, (takeBatch env n 0 0 rows).getLast? = some top :=
    ⟨_, List.getLast?_eq_some_getLast htaken⟩
  have htopmem := List.mem_of_getLast? htop
  have htoprow := hrows top (hpre.subset htopmem)
  have hsortedTaken := hsorted.sublist hpre.sublist
  rw [receive_of_getLast? htop]
  refine ⟨⟨hi.coherent.ordered, hi.coherent.assigned, hi.coherent.retained,
    hi.coherent.deleted⟩, trivial, ⟨?_, ?_, ?_⟩, ?_, ?_, ?_⟩
  · refine List.pairwise_append.mpr ⟨hi.lossless.increasing, ?_, ?_⟩
    · exact List.pairwise_map.mpr hsortedTaken
    intro a ha b hb
    obtain ⟨row, hrow, rfl⟩ := List.mem_map.mp hb
    have hbehind := hi.behind a ha
    have habove := (hrows row (hpre.subset hrow)).2.2
    change a.cursor < row.cursor
    omega
  · intro r hr
    rcases List.mem_append.mp hr with hr | hr
    · exact hi.lossless.genuine r hr
    obtain ⟨row, hrow, rfl⟩ := List.mem_map.mp hr
    obtain ⟨hmem, hmatch, habove⟩ := hrows row (hpre.subset hrow)
    exact ⟨row, hmem, rfl, hmatch, lt_of_le_of_lt hi.ahead habove⟩
  · intro e he hm hs hle
    by_cases hcur : e.cursor ≤ s.cursor
    · exact List.mem_append_left _ (hi.lossless.complete e he hm hs hcur)
    -- a due event up to the last one taken was selected, hence taken
    have hmem : e ∈ rows := by
      rcases hdue e he ⟨hm, by omega⟩ with hmem | habove
      · exact hmem
      have hlt := habove top (hpre.subset htopmem)
      change e.cursor ≤ top.cursor at hle
      omega
    exact List.mem_append_right _
      (List.mem_map_of_mem (mem_prefix_of_le hpre hsorted htopmem hmem hle))
  · intro r hr
    change r.cursor ≤ top.cursor
    rcases List.mem_append.mp hr with hr | hr
    · exact le_trans (hi.behind r hr) (le_of_lt htoprow.2.2)
    · obtain ⟨row, hrow, rfl⟩ := List.mem_map.mp hr
      exact le_getLast hsortedTaken htop hrow
  · exact le_trans hi.ahead (le_of_lt htoprow.2.2)
  · exact le_trans (hi.coherent.assigned top htoprow.1) (le_max_right _ _)

theorem Consuming.last {n minimum : Nat} {rows : List EventRow}
    (hi : Consuming filters start s) (hr : s.reading = .selected n minimum final rows) :
    Consuming filters start
      (s.receive (assemble env n s.cursor minimum rows (lastRetained s.db)) final) := by
  have ha := hi.aware
  simp only [Aware, hr] at ha
  obtain ⟨hn, hsorted, hrows, hdue⟩ := ha
  by_cases hempty : rows = []
  · subst hempty
    refine hi.last_nil ?_ (lastRetained_le hi.coherent.ordered)
    intro hfinal e he hd
    rcases hdue e he hd with hm | ⟨hne, _⟩ | ⟨_, hf⟩
    · cases hm
    · exact hne rfl
    · rw [hfinal] at hf
      cases hf
  · refine hi.last_cons hn hempty hsorted hrows ?_
    intro e he hd
    rcases hdue e he hd with hm | ⟨_, habove⟩ | ⟨hnil, _⟩
    · exact .inl hm
    · exact .inr habove
    · exact absurd hnil hempty

theorem Consuming.step {a : Statement} (hi : Consuming filters start s)
    (hu : Undisturbed env filters s a) (h : step env filters s a = some t) :
    Consuming filters start t := by
  cases a with
  | write w =>
    unfold Journal.step at h
    cases hc : w.commit env s.db with
    | error e =>
      simp only [hc] at h
      cases h
      exact hi
    | ok db =>
      simp only [hc] at h
      cases h
      exact hi.write hc hu
  | floor limit final =>
    unfold Journal.step at h
    simp only at h
    split at h
    · rename_i n hread hlimit
      split at h
      · cases h
        exact hi.of_reading (by simp only [Aware, hread])
      rename_i hfloor
      cases h
      exact hi.of_reading ⟨batchLimit_pos hlimit, fun e he hd =>
        due_retained hi.coherent (by omega) he hd⟩
    · cases h
  | rows =>
    unfold Journal.step at h
    simp only at h
    split at h
    · rename_i n minimum final hread
      cases h
      have ha := hi.aware
      simp only [Aware, hread] at ha
      exact hi.of_reading (Aware.rows hi.coherent ha.1 ha.2)
    · cases h
  | last =>
    unfold Journal.step at h
    simp only at h
    split at h
    · rename_i n minimum final rows hread
      cases h
      exact hi.last hread
    · cases h
  | abandon =>
    cases h
    exact hi.of_reading trivial

/-- While an event is due the next call raises or moves on. -/
theorem Coherent.progress (hc : Coherent s) : Progress env filters s := by
  intro hidle limit n final hlimit ⟨e, he, hd⟩
  by_cases hfloor : s.cursor < (cursorFloor s.db filters).1
  · exact .inl hfloor
  right
  have hn := batchLimit_pos hlimit
  have hm := mem_matching.mpr ⟨due_retained hc (by omega) he hd, hd.2, hd.1⟩
  have hne : selectRows s.db filters s.cursor (n + 1) ≠ [] := by
    intro hnil
    have hlen := congrArg List.length hnil
    rw [selectRows, List.length_take] at hlen
    have hpos := List.length_pos_of_mem hm
    simp only [List.length_nil] at hlen
    omega
  have htaken := takeBatch_ne_nil env hn hne
  obtain ⟨top, htop⟩ : ∃ top,
      (takeBatch env n 0 0 (selectRows s.db filters s.cursor (n + 1))).getLast? = some top :=
    ⟨_, List.getLast?_eq_some_getLast htaken⟩
  have htoprow := (prefix_takeBatch env n 0 0 _).subset (List.mem_of_getLast? htop)
  have habove := (mem_matching.mp (List.mem_of_mem_take htoprow)).2.1
  let rows := selectRows s.db filters s.cursor (n + 1)
  let minimum := (cursorFloor s.db filters).1
  let selected : Session := { s with reading := .selected n minimum final rows }
  let batch := assemble env n s.cursor minimum rows (lastRetained s.db)
  have hrun : Runs.exec (step env filters) s [.floor limit final, .rows, .last] =
      some (selected.receive batch final) := by
    simp only [Runs.exec, Journal.step, hidle, hlimit, if_neg hfloor]
    rfl
  have hmoved : (selected.receive batch final).cursor = top.cursor := by
    rw [receive_of_getLast? htop]
  exact ⟨_, hrun, hmoved ▸ habove⟩

end

/-- A run that never disturbs a call loses no event. -/
theorem lossless_of_undisturbed (env : Environment) (filters : Filters) (start : Nat)
    (statements : List Statement) (s : Session)
    (hu : Runs.Meets (step env filters) (Undisturbed env filters) (.start start) statements)
    (h : Runs.exec (step env filters) (.start start) statements = some s) :
    Lossless filters start s ∧ Progress env filters s := by
  have hi := Runs.invariant_of_meets (I := Consuming filters start)
    (fun _ _ _ hi hc hs => hi.step hc hs) (consuming_start filters start) hu h
  exact ⟨hi.lossless, hi.coherent.progress⟩

def sampleAppend : Write :=
  .append ⟨"thread:1:0", "thread", some "1", "codex.event", .obj [], none, none, none, none⟩
    ⟨"2030-01-01T00:00:00Z", "0", false⟩

/-- An append commits between two calls, and the second call delivers it. -/
def sampleStatements : List Statement :=
  [.floor none true, .rows, .last, .write sampleAppend, .floor none true, .rows, .last]

theorem lossless_sampleStatements : ∃ s,
    Runs.exec (step sampleEnvironment ⟨none, none⟩) (.start 0) sampleStatements = some s ∧
      s.delivered.map Record.cursor = [1] ∧ Lossless ⟨none, none⟩ 0 s ∧
        Progress sampleEnvironment ⟨none, none⟩ s := by
  have hrun : (Runs.exec (step sampleEnvironment ⟨none, none⟩) (.start 0) sampleStatements).any
      (fun s => s.delivered.map Record.cursor = [1]) = true := by
    decide +kernel
  obtain ⟨s, hs, hd⟩ := (Option.any_eq_true _ _).mp hrun
  exact ⟨s, hs, by simpa using hd, lossless_of_undisturbed sampleEnvironment ⟨none, none⟩ 0
    sampleStatements s (by decide +kernel) hs⟩

/-- The same append commits after a call found no row and before it reads the last cursor. -/
def skippingStatements : List Statement :=
  [.floor none true, .rows, .write sampleAppend, .last]

theorem skippingStatements_loses : ∃ s,
    Runs.exec (step sampleEnvironment ⟨none, none⟩) (.start 0) skippingStatements = some s ∧
      ¬ Lossless ⟨none, none⟩ 0 s := by
  have hrun : (Runs.exec (step sampleEnvironment ⟨none, none⟩) (.start 0) skippingStatements).any
      (fun s => s.delivered.isEmpty && s.committed.any fun e =>
        Filters.matchesEvent ⟨none, none⟩ e.scope && 0 < e.cursor && e.cursor ≤ s.cursor) =
      true := by
    decide +kernel
  obtain ⟨s, hs, hd⟩ := (Option.any_eq_true _ _).mp hrun
  simp only [Bool.and_eq_true, List.any_eq_true, decide_eq_true_eq, List.isEmpty_iff] at hd
  obtain ⟨hnone, e, he, ⟨hmatch, hstart⟩, hpassed⟩ := hd
  refine ⟨s, hs, fun hl => ?_⟩
  have hm := hl.complete e he hmatch hstart hpassed
  rw [hnone] at hm
  cases hm

end CodexBridge.Journal
