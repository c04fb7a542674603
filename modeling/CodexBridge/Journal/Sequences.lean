import CodexBridge.Journal.Retention
import Mathlib.Data.List.Pairwise

/-! # Replaying a thread by sequence

A client of a thread resumes after a sequence it has seen. What was deleted is known
by cursor only, so `replay_thread` infers the lost sequences from the first row left.
The inference is right while the sequences retained are those above all lost ones.
-/

namespace CodexBridge.Journal

open Effect

/-! ## The reading -/

/-- The rows of a thread above a sequence, `ORDER BY scope_sequence`. -/
def sequenceRows (db : Database) (scope : Scope) (after : Nat) : List EventRow :=
  ((eventsOf db scope).filter fun e => after < e.scopeSequence).insertionSort fun a b =>
    a.scopeSequence ≤ b.scopeSequence

def minimumSequence (state : ScopeState) : List EventRow → Nat
  | row :: _ => row.scopeSequence
  | [] => state.nextSequence

/-- The expiry test of `replay_thread`. -/
def requireSequence (threadId : String) (after : Nat) (rows : List EventRow) :
    Option ScopeState → Except JournalError Unit
  | some state =>
    refuse (0 < state.minimumCursor ∧ after < minimumSequence state rows - 1)
      (.sequenceExpired after (minimumSequence state rows) state.snapshotCursor threadId)
  | none => .ok ()

def replayThread (db : Database) (threadId : String) (afterSequence : Option Int) :
    Except JournalError (List Record) := do
  let scope ← normalizeScope "thread" (some threadId)
  let after := afterSequence.getD 0
  refuse (after < 0) (.value "thread event sequence is invalid")
  refuse (after > maxSqlInteger) .overflow
  let rows := sequenceRows db scope after.toNat
  requireSequence threadId after.toNat rows (db.scopes.get? scope)
  return rows.map eventRecord

def nextOf (db : Database) (scope : Scope) : Nat := (scopeState db scope).nextSequence

structure Sheds (db db' : Database) : Prop where
  sublist : db'.events.Sublist db.events
  oldest : ∀ e ∈ db.events, e ∉ db'.events →
    ∀ e' ∈ db'.events, e'.scope = e.scope → e.cursor < e'.cursor
  next : ∀ scope, nextOf db' scope = nextOf db scope
  last : db'.lastCursor = db.lastCursor

variable {db db' : Database}

theorem Sheds.of_same (h : SameEvents db db') : Sheds db db' := by
  refine ⟨?_, ?_, ?_, h.last⟩
  · rw [h.events]
  · intro e he hn
    exact absurd (h.events ▸ he) hn
  · intro scope
    unfold nextOf
    rw [h.states]

theorem Sheds.same {db mid db' : Database} (h : Sheds db mid) (hs : SameEvents mid db') :
    Sheds db db' := by
  refine ⟨?_, ?_, ?_, hs.last.trans h.last⟩
  · rw [hs.events]
    exact h.sublist
  · rw [hs.events]
    exact h.oldest
  · intro scope
    rw [← h.next scope]
    unfold nextOf
    rw [hs.states]

theorem sheds_lowered (db : Database) (scope : Scope) (through snapshot count bytes : Nat) :
    Sheds db (lowered db scope through snapshot count bytes) := by
  refine ⟨List.filter_sublist, ?_, ?_, rfl⟩
  · intro e he hn e' he' hs
    have hgone : e.scope = scope ∧ e.cursor ≤ through := by
      by_contra hstay
      refine hn (mem_lowered.mpr ⟨he, fun hs => ?_⟩)
      exact not_le.mp fun hle => hstay ⟨hs, hle⟩
    have habove := (mem_lowered.mp he').2 (hs.trans hgone.1)
    omega
  · intro other
    unfold nextOf lowered
    rw [scopeState_setScope]
    split
    · rename_i hs
      rw [hs]
      rfl
    · rfl

theorem sheds_purged (db : Database) (scope : Scope) (through snapshot : Nat) :
    Sheds db (purged db scope through snapshot) := by
  have hmem : ∀ e, e ∈ (purged db scope through snapshot).events ↔
      e ∈ db.events ∧ e.scope ≠ scope := by
    intro e
    change e ∈ db.events.filter _ ↔ _
    simp
  refine ⟨List.filter_sublist, ?_, ?_, rfl⟩
  · intro e he hn e' he' hs
    by_contra
    refine hn ((hmem e).mpr ⟨he, ?_⟩)
    rw [← hs]
    exact ((hmem e').mp he').2
  intro other
  unfold nextOf purged
  rw [scopeState_setScope]
  split
  · rename_i hs
    rw [hs]
    rfl
  · rfl

variable {env : Environment}

theorem retain_sheds {row : EventRow}
    (hi : Accounted db) (h : retain env db row = .ok db') : Sheds db db' := by
  have hsame := retain_spec h
  obtain ⟨hshape, _⟩ := enforceScopeRetention_spec hi rfl
  rcases hshape with heq | ⟨through, _, heq⟩
  · rw [heq] at hsame
    exact Sheds.of_same hsame
  · rw [heq] at hsame
    exact (sheds_lowered db row.scope through _ _ _).same hsame

/-- The parts of an insertion: the event goes in, its projections follow, and retention
sheds the oldest events of its scope. -/
structure Inserted (env : Environment) (db db' : Database) (c : CheckedAppend) : Prop where
  given : c.scopeSequence ≠ some 0
  small : (newEvent db c).scopeSequence < maxSqlInteger
  free : collides db (newEvent db c) = false
  projected : ∃ projected, projectEvent env (insertEvent db c) (newEvent db c) = .ok projected ∧
    db'.transcript = projected.transcript
  sheds : Sheds (insertEvent db c) db'

theorem retain_transcript {row : EventRow}
    (h : retain env db row = .ok db') : db'.transcript = db.transcript := by
  have henforce : ∀ scope snapshot maxCount maxBytes,
      (enforceScopeRetention db scope snapshot maxCount maxBytes).1.transcript = db.transcript := by
    intro scope snapshot maxCount maxBytes
    unfold enforceScopeRetention
    simp only
    split
    · rfl
    split
    · rfl
    · rfl
  unfold retain at h
  simp only at h
  split at h
  · obtain ⟨tombstones, legacy, rfl, _⟩ := prune_spec h
    exact henforce _ _ _ _
  · cases h
    exact henforce _ _ _ _

theorem Step.cases_on_log {K : Prop} {s t : Store} (hi : Accounted s.db) (h : Step env K s t) :
    (∃ c, Inserted env s.db t.db c ∧ t.log = s.log ++ [.event (eventRecord (newEvent s.db c))]) ∨
      (Sheds s.db t.db ∧ t.db.transcript = s.db.transcript ∧ t.log = s.log) ∨
      ∃ threadId, Sheds s.db t.db ∧ t.db.transcript = s.db.transcript.dropThread threadId ∧
        eventsOf t.db (.thread threadId) = [] ∧ t.log = s.log ++ [.purge threadId] := by
  cases h with
  | @append db db' log request draws record appended =>
    obtain ⟨c, projected, hc, hsmall, hfree, hrecord, hp, hk⟩ := append_inserted appended
    obtain ⟨transcript, lifecycle, heq⟩ := projectEvent_spec hp
    have hsame : SameEvents (insertEvent db c) projected := by
      rw [heq]
      exact SameEvents.of_eq rfl rfl rfl
    have hshed := retain_sheds ((hi.insertEvent c).of_same hsame) hk
    refine .inl ⟨c, ⟨(checkAppend_checked hc).sequence.2, hsmall, hfree, ⟨projected, hp, ?_⟩, ?_⟩,
      ?_⟩
    · exact retain_transcript hk
    · refine ⟨?_, ?_, ?_, ?_⟩
      · rw [← hsame.events]
        exact hshed.sublist
      · rw [← hsame.events]
        exact hshed.oldest
      · intro scope
        rw [hshed.next]
        unfold nextOf
        rw [hsame.states]
      · exact hshed.last.trans hsame.last
    · rw [hrecord]
  | metadata ledger outbox tombstones legacyImports =>
    exact .inr (.inl ⟨Sheds.of_same (SameEvents.of_eq (by rfl) (by rfl) (by rfl)), rfl, rfl⟩)
  | compact allowed compacted =>
    obtain ⟨scope, _, hsame, htranscript⟩ := compact_spec compacted
    exact .inr (.inl ⟨(sheds_lowered _ scope _ _ _ _).same hsame, htranscript, rfl⟩)
  | purge purged =>
    obtain ⟨snapshot, hsame, htranscript⟩ := purgeThread_spec purged
    refine .inr (.inr ⟨_, (sheds_purged _ _ _ snapshot).same hsame, htranscript, ?_, rfl⟩)
    rw [hsame.eventsOf, eventsOf_purged, if_pos rfl]
  | recount => exact .inr (.inl ⟨Sheds.of_same (recount_same hi), rfl, rfl⟩)

/-! ## What was journaled -/

def Entry.record? : Entry → Option Record
  | .event r => some r
  | .purge _ => none

def journaledEvents (log : List Entry) : List Record := log.filterMap Entry.record?

theorem mem_journaledEvents {log : List Entry} {r : Record} :
    r ∈ journaledEvents log ↔ .event r ∈ log := by
  unfold journaledEvents
  rw [List.mem_filterMap]
  constructor
  · rintro ⟨entry, hm, he⟩
    cases entry with
    | event r' =>
      cases he
      exact hm
    | purge threadId => cases he
  · intro hm
    exact ⟨_, hm, rfl⟩

def Lost (s : Store) (r : Record) : Prop :=
  r ∈ journaledEvents s.log ∧ ∀ e ∈ s.db.events, eventRecord e ≠ r

structure Sequenced (s : Store) : Prop where
  accounted : Accounted s.db
  logged : ∀ e ∈ s.db.events, eventRecord e ∈ journaledEvents s.log
  ascending : (journaledEvents s.log).Pairwise fun a b => a.cursor < b.cursor
  cursors : ∀ r ∈ journaledEvents s.log, 0 < r.cursor ∧ r.cursor ≤ s.db.lastCursor
  sequences : ∀ r ∈ journaledEvents s.log,
    0 < r.scopeSequence ∧ r.scopeSequence < nextOf s.db r.scope
  reached : ∀ scope, nextOf s.db scope = 1 ∨ ∃ r ∈ journaledEvents s.log,
    r.scope = scope ∧ r.scopeSequence + 1 = nextOf s.db scope
  small : ∀ scope, nextOf s.db scope ≤ maxSqlInteger
  distinct : s.db.events.Pairwise fun a b => a.scope = b.scope → a.scopeSequence ≠ b.scopeSequence
  oldest : ∀ r, Lost s r → ∀ e ∈ s.db.events, e.scope = r.scope → r.cursor < e.cursor

theorem sequenced_initial : Sequenced .initial where
  accounted := accounted_empty
  logged e he := by cases he
  ascending := List.Pairwise.nil
  cursors r hr := by cases hr
  sequences r hr := by cases hr
  reached scope := .inl rfl
  small scope := by
    change 1 ≤ maxSqlInteger
    decide
  distinct := List.Pairwise.nil
  oldest r hr := by cases hr.1

theorem Sequenced.shed {log log' : List Entry} (h : Sequenced ⟨db, log⟩)
    (ha : Accounted db') (hs : Sheds db db') (hl : journaledEvents log' = journaledEvents log) :
    Sequenced ⟨db', log'⟩ := by
  refine ⟨ha, ?_, ?_, ?_, ?_, ?_, ?_, ?_, ?_⟩
  · intro e he
    rw [hl]
    exact h.logged e (hs.sublist.mem he)
  · rw [hl]
    exact h.ascending
  · intro r hr
    rw [hl] at hr
    rw [hs.last]
    exact h.cursors r hr
  · intro r hr
    rw [hl] at hr
    rw [hs.next]
    exact h.sequences r hr
  · intro scope
    rw [hs.next, hl]
    exact h.reached scope
  · intro scope
    rw [hs.next]
    exact h.small scope
  · exact h.distinct.sublist hs.sublist
  · intro r hr e he hscope
    have hlogged : r ∈ journaledEvents log := hl ▸ hr.1
    by_cases hm : ∃ e' ∈ db.events, eventRecord e' = r
    · obtain ⟨e', he', rfl⟩ := hm
      exact hs.oldest e' he' (fun hin => hr.2 e' hin rfl) e he hscope
    · refine h.oldest r ⟨hlogged, fun e' he' heq => hm ⟨e', he', heq⟩⟩ e (hs.sublist.mem he) hscope

theorem journaledEvents_append (log more : List Entry) :
    journaledEvents (log ++ more) = journaledEvents log ++ journaledEvents more := by
  simp [journaledEvents]

theorem Sequenced.insert {db : Database} {log : List Entry} {c : CheckedAppend}
    (h : Sequenced ⟨db, log⟩) (hgiven : c.scopeSequence ≠ some 0)
    (hsmall : (newEvent db c).scopeSequence < maxSqlInteger)
    (hfree : collides db (newEvent db c) = false) :
    Sequenced ⟨insertEvent db c, log ++ [.event (eventRecord (newEvent db c))]⟩ := by
  have hevents : journaledEvents (log ++ [.event (eventRecord (newEvent db c))]) =
      journaledEvents log ++ [eventRecord (newEvent db c)] := journaledEvents_append _ _
  have hnext : ∀ scope, nextOf (insertEvent db c) scope =
      if scope = c.scope then max (nextOf db c.scope) ((newEvent db c).scopeSequence + 1)
      else nextOf db scope := by
    intro scope
    unfold nextOf insertEvent
    rw [scopeState_setScope]
    split
    · rfl
    · rfl
  have hone : ∀ scope, 1 ≤ nextOf db scope := by
    intro scope
    rcases h.reached scope with hone | ⟨r, _, _, hr⟩
    · change nextOf db scope = 1 at hone
      omega
    · change r.scopeSequence + 1 = nextOf db scope at hr
      omega
  have hpositive : 0 < (newEvent db c).scopeSequence := by
    change 0 < c.scopeSequence.getD (nextOf db c.scope)
    cases hc : c.scopeSequence with
    | none => exact hone c.scope
    | some n =>
      have hn : n ≠ 0 := by
        rintro rfl
        exact hgiven hc
      simpa using Nat.pos_of_ne_zero hn
  refine ⟨h.accounted.insertEvent c, ?_, ?_, ?_, ?_, ?_, ?_, ?_, ?_⟩
  · intro e he
    rw [hevents]
    rcases List.mem_append.mp he with he | he
    · exact List.mem_append_left _ (h.logged e he)
    · rw [List.mem_singleton.mp he]
      exact List.mem_append_right _ List.mem_cons_self
  · rw [hevents]
    refine List.pairwise_append.mpr ⟨h.ascending, List.pairwise_singleton _ _, ?_⟩
    intro a ha b hb
    rw [List.mem_singleton.mp hb]
    exact Nat.lt_succ_of_le (h.cursors a ha).2
  · intro r hr
    rw [hevents] at hr
    rcases List.mem_append.mp hr with hr | hr
    · obtain ⟨hpos, hle⟩ := h.cursors r hr
      exact ⟨hpos, le_trans hle (Nat.le_succ _)⟩
    · rw [List.mem_singleton.mp hr]
      exact ⟨Nat.succ_pos _, le_rfl⟩
  · intro r hr
    rw [hevents] at hr
    rw [hnext]
    rcases List.mem_append.mp hr with hr | hr
    · obtain ⟨hpos, hlt⟩ := h.sequences r hr
      refine ⟨hpos, ?_⟩
      change r.scopeSequence < nextOf db r.scope at hlt
      split
      · rename_i hs
        rw [hs] at hlt
        omega
      · exact hlt
    · rw [List.mem_singleton.mp hr]
      refine ⟨hpositive, ?_⟩
      have hscope : (eventRecord (newEvent db c)).scope = c.scope := rfl
      rw [if_pos hscope]
      exact lt_of_lt_of_le (Nat.lt_succ_self _) (le_max_right _ _)
  · intro scope
    rw [hnext, hevents]
    split
    · rename_i hs
      by_cases hmax : nextOf db c.scope ≤ (newEvent db c).scopeSequence + 1
      · refine .inr ⟨_, List.mem_append_right _ List.mem_cons_self, hs.symm, ?_⟩
        change (newEvent db c).scopeSequence + 1 = _
        omega
      rcases h.reached c.scope with hfresh | ⟨r, hr, hscope, heq⟩
      · change nextOf db c.scope = 1 at hfresh
        omega
      · refine .inr ⟨r, List.mem_append_left _ hr, hscope.trans hs.symm, ?_⟩
        change r.scopeSequence + 1 = nextOf db c.scope at heq
        omega
    · rcases h.reached scope with hfresh | ⟨r, hr, hscope, heq⟩
      · exact .inl hfresh
      · exact .inr ⟨r, List.mem_append_left _ hr, hscope, heq⟩
  · intro scope
    rw [hnext]
    split
    · exact max_le (h.small c.scope) (Nat.succ_le_of_lt hsmall)
    · exact h.small scope
  · refine List.pairwise_append.mpr ⟨h.distinct, List.pairwise_singleton _ _, ?_⟩
    intro a ha b hb hscope hsequence
    rw [List.mem_singleton.mp hb] at hscope hsequence
    have hall := List.any_eq_false.mp hfree a ha
    exact hall (by simp [hscope, hsequence])
  · intro r hr e he hscope
    have hold : r ∈ journaledEvents log := by
      have hin := hr.1
      rw [hevents] at hin
      rcases List.mem_append.mp hin with hin | hin
      · exact hin
      · exact absurd (List.mem_singleton.mp hin).symm
          (hr.2 _ (List.mem_append_right _ List.mem_cons_self))
    rcases List.mem_append.mp he with he | he
    · exact h.oldest r ⟨hold, fun e' he' => hr.2 e' (List.mem_append_left _ he')⟩ e he hscope
    · rw [List.mem_singleton.mp he]
      exact Nat.lt_succ_of_le (h.cursors r hold).2

theorem Step.sequenced {K : Prop} {s t : Store} (hi : Sequenced s)
    (h : Step env K s t) : Sequenced t := by
  have ha := h.accounted hi.accounted
  obtain ⟨db', log'⟩ := t
  rcases h.cases_on_log hi.accounted with
    ⟨c, hins, hlog⟩ | ⟨hshed, _, hlog⟩ | ⟨threadId, hshed, _, _, hlog⟩
  · change log' = _ at hlog
    rw [hlog]
    exact (hi.insert hins.given hins.small hins.free).shed ha hins.sheds rfl
  · change log' = _ at hlog
    rw [hlog]
    exact hi.shed ha hshed rfl
  · change log' = _ at hlog
    rw [hlog]
    refine hi.shed ha hshed ?_
    rw [journaledEvents_append]
    exact List.append_nil _

theorem Store.run_sequenced (env : Environment) (changes : List Change) :
    Sequenced (Store.run env changes) :=
  Store.run_invariant sequenced_initial (fun _ _ hi h => h.sequenced hi) changes

/-- What a scope retains is the newest of what was journaled in it. -/
theorem Store.run_keepsNewest (env : Environment) (changes : List Change) :
    (journaledEvents (Store.run env changes).log).Pairwise fun a b =>
      a.scope = b.scope → Lost (Store.run env changes) b → Lost (Store.run env changes) a := by
  have h := Store.run_sequenced env changes
  refine h.ascending.imp_of_mem fun {a b} ha _ hlt hscope hlost => ⟨ha, ?_⟩
  rintro e he rfl
  have hnewer : b.cursor < e.cursor := h.oldest b hlost e he hscope
  exact Nat.lt_asymm hlt hnewer

/-! ## When the reading is right -/

section

variable {s : Store} {threadId : String} {after : Nat}

theorem mem_sequenceRows {db : Database} {scope : Scope} {e : EventRow} :
    e ∈ sequenceRows db scope after ↔ e ∈ eventsOf db scope ∧ after < e.scopeSequence := by
  unfold sequenceRows
  rw [List.mem_insertionSort, List.mem_filter]
  simp

theorem sequenceRows_sorted (h : Sequenced s) (scope : Scope) :
    (sequenceRows s.db scope after).Pairwise fun a b => a.scopeSequence < b.scopeSequence := by
  have htotal : Std.Total fun a b : EventRow => a.scopeSequence ≤ b.scopeSequence :=
    ⟨fun a b => le_total a.scopeSequence b.scopeSequence⟩
  have htrans : IsTrans EventRow fun a b => a.scopeSequence ≤ b.scopeSequence :=
    ⟨fun a b c => le_trans⟩
  have hsorted := List.pairwise_insertionSort
    (fun a b : EventRow => a.scopeSequence ≤ b.scopeSequence)
    ((eventsOf s.db scope).filter fun e => after < e.scopeSequence)
  have hdistinct : (sequenceRows s.db scope after).Pairwise fun a b =>
      a.scopeSequence ≠ b.scopeSequence := by
    have hpairs : ((eventsOf s.db scope).filter fun e => after < e.scopeSequence).Pairwise
        fun a b => a.scopeSequence ≠ b.scopeSequence := by
      refine List.Pairwise.filter _ ?_
      refine List.Pairwise.imp_of_mem ?_ (h.distinct.filter _)
      intro a b ha hb hne
      exact hne ((mem_eventsOf.mp ha).2.trans (mem_eventsOf.mp hb).2.symm)
    exact (List.perm_insertionSort _ _).symm.pairwise hpairs Ne.symm
  refine (hsorted.and hdistinct).imp fun {a b} hab => ?_
  exact lt_of_le_of_ne hab.1 hab.2

/-- The expiry test asks whether the next sequence is neither there nor still to come. -/
theorem minimumSequence_lt (h : Sequenced s) (scope : Scope) (after : Nat) :
    after < minimumSequence (scopeState s.db scope) (sequenceRows s.db scope after) - 1 ↔
      (∀ e ∈ eventsOf s.db scope, e.scopeSequence ≠ after + 1) ∧ after + 1 < nextOf s.db scope := by
  have hbelow : ∀ e ∈ eventsOf s.db scope, e.scopeSequence < nextOf s.db scope := by
    intro e he
    obtain ⟨hin, hs⟩ := mem_eventsOf.mp he
    have hlt := (h.sequences _ (h.logged e hin)).2
    change e.scopeSequence < nextOf s.db e.scope at hlt
    rwa [hs] at hlt
  cases hrows : sequenceRows s.db scope after with
  | nil =>
    have hnone : ∀ e ∈ eventsOf s.db scope, e.scopeSequence ≠ after + 1 := by
      intro e he heq
      have hin : e ∈ sequenceRows s.db scope after := mem_sequenceRows.mpr ⟨he, by omega⟩
      rw [hrows] at hin
      cases hin
    change after < nextOf s.db scope - 1 ↔ _
    constructor
    · intro hlt
      exact ⟨hnone, by omega⟩
    · intro hlt
      omega
  | cons row rest =>
    have hsorted : (sequenceRows s.db scope after).Pairwise fun a b =>
        a.scopeSequence < b.scopeSequence := sequenceRows_sorted h scope
    rw [hrows] at hsorted
    have hrow : row ∈ sequenceRows s.db scope after := by
      rw [hrows]
      exact List.mem_cons_self
    obtain ⟨hin, hgt⟩ := mem_sequenceRows.mp hrow
    have hlt := hbelow row hin
    change after < row.scopeSequence - 1 ↔ _
    constructor
    · intro hgap
      refine ⟨?_, by omega⟩
      intro e he heq
      have hmem : e ∈ sequenceRows s.db scope after := mem_sequenceRows.mpr ⟨he, by omega⟩
      rw [hrows] at hmem
      rcases List.mem_cons.mp hmem with rfl | hmem
      · omega
      · have hless := (List.pairwise_cons.mp hsorted).1 e hmem
        omega
    · intro hmissing
      have hne := hmissing.1 row hin
      omega

def Expired (db : Database) (scope : Scope) (after : Nat) : Prop :=
  0 < floorOf db scope ∧ (∀ e ∈ eventsOf db scope, e.scopeSequence ≠ after + 1) ∧
    after + 1 < nextOf db scope

theorem replayThread_cases (h : Sequenced s)
    (hid : normalizeScope "thread" (some threadId) = .ok (.thread threadId))
    (hafter : after ≤ maxSqlInteger) :
    (Expired s.db (.thread threadId) after ∧ ∃ minimum snapshot,
        replayThread s.db threadId (some after) =
          .error (.sequenceExpired after minimum snapshot threadId)) ∨
      (¬ Expired s.db (.thread threadId) after ∧ replayThread s.db threadId (some after) =
        .ok ((sequenceRows s.db (.thread threadId) after).map eventRecord)) := by
  have hnat : ¬ ((after : Int) < 0) := by omega
  have hsmall : ¬ ((after : Int) > (maxSqlInteger : Int)) := by omega
  have hrun : replayThread s.db threadId (some after) =
      (requireSequence threadId after (sequenceRows s.db (.thread threadId) after)
        (s.db.scopes.get? (.thread threadId)) >>= fun _ =>
          .ok ((sequenceRows s.db (.thread threadId) after).map eventRecord)) := by
    unfold replayThread
    rw [hid, except_pure_bind]
    simp only [Option.getD_some]
    rw [refuse_bind_of_not hnat, refuse_bind_of_not hsmall]
    rfl
  have htest := minimumSequence_lt h (.thread threadId) after
  unfold Expired
  rw [hrun]
  unfold floorOf
  unfold scopeState at htest ⊢
  cases hs : s.db.scopes.get? (.thread threadId) with
  | none =>
    refine .inr ⟨?_, rfl⟩
    rintro ⟨hpos, _⟩
    exact absurd hpos (lt_irrefl 0)
  | some state =>
    rw [hs] at htest
    simp only [Option.getD_some] at htest ⊢
    by_cases hexpired : 0 < state.minimumCursor ∧ after < minimumSequence state
        (sequenceRows s.db (.thread threadId) after) - 1
    · refine .inl ⟨⟨hexpired.1, htest.mp hexpired.2⟩, minimumSequence state
        (sequenceRows s.db (.thread threadId) after), state.snapshotCursor, ?_⟩
      exact refuse_bind_of hexpired _ _
    · refine .inr ⟨fun hexp => hexpired ⟨hexp.1, htest.mpr hexp.2⟩, ?_⟩
      exact refuse_bind_of_not hexpired _ _

/-- The reading of a thread after a sequence: it expires only if a later event was lost,
and else returns every later event ever journaled, in order. -/
def Faithful (s : Store) (threadId : String) (after : Nat) : Prop :=
  match replayThread s.db threadId (some after) with
  | .ok records =>
    (records.Pairwise fun a b => a.scopeSequence < b.scopeSequence) ∧
      ∀ r, r ∈ records ↔
        r ∈ journaledEvents s.log ∧ r.scope = .thread threadId ∧ after < r.scopeSequence
  | .error (.sequenceExpired ..) =>
    ∃ r, Lost s r ∧ r.scope = .thread threadId ∧ after < r.scopeSequence
  | .error _ => False

/-- Nothing was deleted from the scope, or the sequences retained are those above all
lost ones. -/
def Gapless (s : Store) (scope : Scope) : Prop :=
  floorOf s.db scope = 0 ∨ ∀ n, 0 < n → n < nextOf s.db scope →
    ((∃ e ∈ eventsOf s.db scope, e.scopeSequence = n) ↔
      ∀ r, Lost s r → r.scope = scope → r.scopeSequence < n)

theorem faithful_iff (h : Sequenced s)
    (hid : normalizeScope "thread" (some threadId) = .ok (.thread threadId))
    (hafter : after ≤ maxSqlInteger) :
    Faithful s threadId after ↔ (Expired s.db (.thread threadId) after ↔
      ∃ r, Lost s r ∧ r.scope = .thread threadId ∧ after < r.scopeSequence) := by
  unfold Faithful
  rcases replayThread_cases h hid hafter with ⟨hexpired, _, _, hrun⟩ | ⟨hexpired, hrun⟩
  · rw [hrun]
    exact ⟨fun hlost => ⟨fun _ => hlost, fun _ => hexpired⟩, fun hiff => hiff.mp hexpired⟩
  rw [hrun]
  have hmem : ∀ r, r ∈ (sequenceRows s.db (.thread threadId) after).map eventRecord ↔
      (∃ e ∈ s.db.events, eventRecord e = r) ∧ r.scope = .thread threadId ∧
        after < r.scopeSequence := by
    intro r
    rw [List.mem_map]
    constructor
    · rintro ⟨e, he, rfl⟩
      obtain ⟨hin, hgt⟩ := mem_sequenceRows.mp he
      obtain ⟨hin, hs⟩ := mem_eventsOf.mp hin
      exact ⟨⟨e, hin, rfl⟩, hs, hgt⟩
    · rintro ⟨⟨e, hin, rfl⟩, hs, hgt⟩
      exact ⟨e, mem_sequenceRows.mpr ⟨mem_eventsOf.mpr ⟨hin, hs⟩, hgt⟩, rfl⟩
  constructor
  · intro hall
    refine ⟨fun hexp => absurd hexp hexpired, ?_⟩
    rintro ⟨r, hlost, hs, hgt⟩
    obtain ⟨⟨e, hin, heq⟩, _⟩ := (hmem r).mp ((hall.2 r).mpr ⟨hlost.1, hs, hgt⟩)
    exact absurd heq (hlost.2 e hin)
  intro hiff
  refine ⟨List.Pairwise.map _ (fun a b hab => hab) (sequenceRows_sorted h _), fun r => ?_⟩
  rw [hmem]
  constructor
  · rintro ⟨⟨e, hin, rfl⟩, hs, hgt⟩
    exact ⟨h.logged e hin, hs, hgt⟩
  · rintro ⟨hlogged, hs, hgt⟩
    refine ⟨?_, hs, hgt⟩
    by_contra hgone
    refine hexpired (hiff.mpr ⟨r, ⟨hlogged, fun e he heq => hgone ⟨e, he, heq⟩⟩, hs, hgt⟩)

theorem Sequenced.faithful_iff_gapless (h : Sequenced s) (hdeleted : ∀ r ∈ journaledEvents s.log,
      (∃ e ∈ s.db.events, eventRecord e = r) ∨ r.cursor ≤ floorOf s.db r.scope)
    (hid : normalizeScope "thread" (some threadId) = .ok (.thread threadId)) :
    (∀ after, after ≤ maxSqlInteger → Faithful s threadId after) ↔
      Gapless s (.thread threadId) := by
  have hbound : ∀ r, Lost s r → r.scope = .thread threadId →
      0 < r.scopeSequence ∧ r.scopeSequence < nextOf s.db (.thread threadId) := by
    intro r hr hs
    have hseq := h.sequences r hr.1
    rwa [hs] at hseq
  have hnone : floorOf s.db (.thread threadId) = 0 → ∀ r, Lost s r →
      r.scope ≠ .thread threadId := by
    intro hzero r hr hs
    rcases hdeleted r hr.1 with ⟨e, he, heq⟩ | hle
    · exact hr.2 e he heq
    have hpos := (h.cursors r hr.1).1
    rw [hs, hzero] at hle
    omega
  constructor
  · intro hall
    rcases Nat.eq_zero_or_pos (floorOf s.db (.thread threadId)) with hzero | hpos
    · exact .inl hzero
    refine .inr fun n hn hlt => ?_
    have hsmall := h.small (.thread threadId)
    have hiff := (faithful_iff h hid (by omega)).mp (hall (n - 1) (by omega))
    constructor
    · rintro ⟨e, he, heq⟩ r hr hs
      by_contra hge
      exact (hiff.mpr ⟨r, hr, hs, by omega⟩).2.1 e he (by omega)
    intro hbelow
    by_contra hmissing
    obtain ⟨r, hr, hs, hgt⟩ := hiff.mp
      ⟨hpos, fun e he heq => hmissing ⟨e, he, by omega⟩, by omega⟩
    have hless := hbelow r hr hs
    omega
  · intro hgap after hafter
    rw [faithful_iff h hid hafter]
    rcases hgap with hzero | hgap
    · constructor
      · intro hexp
        exact absurd hexp.1 (by omega)
      · rintro ⟨r, hr, hs, _⟩
        exact absurd hs (hnone hzero r hr)
    constructor
    · rintro ⟨_, hmissing, hlt⟩
      by_contra hkept
      have hbelow : ∀ r, Lost s r → r.scope = .thread threadId → r.scopeSequence < after + 1 := by
        intro r hr hs
        by_contra hge
        exact hkept ⟨r, hr, hs, by omega⟩
      obtain ⟨e, he, heq⟩ := (hgap (after + 1) (Nat.succ_pos _) hlt).mpr hbelow
      exact hmissing e he heq
    · rintro ⟨r, hr, hs, hgt⟩
      have hrange := hbound r hr hs
      refine ⟨?_, ?_, by omega⟩
      · by_contra hzero
        exact hnone (by omega) r hr hs
      · intro e he heq
        have hless := (hgap (after + 1) (Nat.succ_pos _) (by omega)).mp ⟨e, he, heq⟩ r hr hs
        omega

def sequencesOf (log : List Entry) (scope : Scope) : List Nat :=
  ((journaledEvents log).filter fun r => r.scope = scope).map Record.scopeSequence

def InOrder (log : List Entry) (scope : Scope) : Prop :=
  sequencesOf log scope = List.range' 1 (sequencesOf log scope).length

instance (log : List Entry) (scope : Scope) : Decidable (InOrder log scope) :=
  inferInstanceAs (Decidable (_ = _))

def RiseTogether (a b : Record) : Prop :=
  (a.cursor < b.cursor → a.scopeSequence < b.scopeSequence) ∧
    (b.cursor < a.cursor → b.scopeSequence < a.scopeSequence)

instance : Std.Symm RiseTogether := ⟨fun _ _ h => ⟨h.2, h.1⟩⟩

theorem Sequenced.gapless (h : Sequenced s) {scope : Scope} (ho : InOrder s.log scope) :
    Gapless s scope := by
  have hmem : ∀ n, n ∈ sequencesOf s.log scope ↔
      ∃ r ∈ journaledEvents s.log, r.scope = scope ∧ r.scopeSequence = n := by
    intro n
    simp [sequencesOf, and_assoc]
  have hrise : ((journaledEvents s.log).filter fun r => r.scope = scope).Pairwise fun a b =>
      a.cursor < b.cursor ∧ a.scopeSequence < b.scopeSequence := by
    refine (h.ascending.filter _).and (List.pairwise_map.mp ?_)
    have hrange : (List.range' 1 (sequencesOf s.log scope).length).Pairwise (· < ·) :=
      List.pairwise_lt_range'
    rw [← ho] at hrange
    exact hrange
  have hsame := List.Pairwise.forall_of_forall (R := RiseTogether)
    (fun _ _ => ⟨fun hlt => absurd hlt (lt_irrefl _), fun hlt => absurd hlt (lt_irrefl _)⟩)
    (hrise.imp fun {a b} hab => ⟨fun _ => hab.2, fun hlt => absurd hlt (by omega)⟩)
  have hin : ∀ r ∈ journaledEvents s.log, r.scope = scope →
      r ∈ (journaledEvents s.log).filter fun r => r.scope = scope := by
    intro r hr hs
    exact List.mem_filter.mpr ⟨hr, by simpa using hs⟩
  refine .inr fun n hn hlt => ?_
  constructor
  · rintro ⟨e, he, rfl⟩ r hr hs
    obtain ⟨hmemEvent, hscope⟩ := mem_eventsOf.mp he
    have hcursor := h.oldest r hr e hmemEvent (hscope.trans hs.symm)
    exact (hsame (hin r hr.1 hs) (hin _ (h.logged e hmemEvent) hscope)).1 hcursor
  intro hbelow
  have htaken : n ∈ sequencesOf s.log scope := by
    rcases h.reached scope with hone | ⟨last, hlast, hs, heq⟩
    · omega
    have hrange := (hmem last.scopeSequence).mpr ⟨last, hlast, hs, rfl⟩
    rw [ho] at hrange ⊢
    rw [List.mem_range'_1] at hrange ⊢
    omega
  obtain ⟨r, hr, hs, rfl⟩ := (hmem n).mp htaken
  by_contra hmissing
  refine absurd (hbelow r ⟨hr, ?_⟩ hs) (lt_irrefl _)
  rintro e he rfl
  exact hmissing ⟨e, mem_eventsOf.mpr ⟨he, hs⟩, rfl⟩

end

/-- After every run the readings of a thread are all faithful just if its retained
sequences are gapless, as they are when each event took the next sequence. -/
theorem Store.run_faithful_iff (env : Environment) (changes : List Change) {threadId : String}
    (hid : normalizeScope "thread" (some threadId) = .ok (.thread threadId)) :
    ((∀ after, after ≤ maxSqlInteger → Faithful (Store.run env changes) threadId after) ↔
        Gapless (Store.run env changes) (.thread threadId)) ∧
      (InOrder (Store.run env changes).log (.thread threadId) →
        ∀ after, after ≤ maxSqlInteger → Faithful (Store.run env changes) threadId after) := by
  have hseq := Store.run_sequenced env changes
  have hiff := hseq.faithful_iff_gapless (fun r hr =>
    (Store.run_retained env changes).deleted r (mem_journaledEvents.mp hr)) hid
  exact ⟨hiff, fun ho => hiff.mpr (hseq.gapless ho)⟩

/-- An event of the thread `t` under a sequence of the caller's. -/
def explicitAppend (key : String) (sequence : Nat) : Change :=
  .append
    { operationKey := key
      scope := "thread"
      threadId := some "t"
      eventType := "run.queued"
      payload := .obj []
      timestamp := some "2030-01-01T00:00:00Z"
      operationId := none
      eventId := some key
      scopeSequence := some sequence }
    ⟨"", "", false⟩

theorem Store.run_faithful_iff_ordered :
    Faithful (Store.run sampleEnvironment
      [explicitAppend "a" 1, explicitAppend "b" 2, .compact "thread" 1 1 (some "t")]) "t" 0 := by
  have hid : normalizeScope "thread" (some "t") = .ok (.thread "t") := rfl
  have hfaithful := (Store.run_faithful_iff sampleEnvironment
    [explicitAppend "a" 1, explicitAppend "b" 2, .compact "thread" 1 1 (some "t")] hid).2
    (by decide +kernel)
  exact hfaithful 0 (Nat.zero_le _)

def outOfOrderChanges : List Change :=
  [explicitAppend "a" 5, explicitAppend "b" 3, .compact "thread" 1 1 (some "t")]

def sparseChanges : List Change :=
  [explicitAppend "a" 1, explicitAppend "b" 9, .compact "thread" 1 1 (some "t")]

/-- After 2 the reading returns 3 and keeps quiet about 5; after 4 the other one expires
though only 1 was lost. -/
theorem replayThread_unfaithful :
    ¬ Faithful (Store.run sampleEnvironment outOfOrderChanges) "t" 2 ∧
      ¬ Faithful (Store.run sampleEnvironment sparseChanges) "t" 4 := by
  have hid : normalizeScope "thread" (some "t") = .ok (.thread "t") := rfl
  refine ⟨?_, ?_⟩
  · intro h
    have hiff := (faithful_iff (Store.run_sequenced sampleEnvironment outOfOrderChanges) hid
      (by decide)).mp h
    have hlost : ∃ r ∈ journaledEvents (Store.run sampleEnvironment outOfOrderChanges).log,
        (∀ e ∈ (Store.run sampleEnvironment outOfOrderChanges).db.events, eventRecord e ≠ r) ∧
          r.scope = .thread "t" ∧ 2 < r.scopeSequence := by decide +kernel
    have hthere : ∃ e ∈ eventsOf (Store.run sampleEnvironment outOfOrderChanges).db (.thread "t"),
        e.scopeSequence = 2 + 1 := by decide +kernel
    obtain ⟨r, hr, hgone, hs, hgt⟩ := hlost
    obtain ⟨e, he, heq⟩ := hthere
    exact (hiff.mpr ⟨r, ⟨hr, hgone⟩, hs, hgt⟩).2.1 e he heq
  · intro h
    have hiff := (faithful_iff (Store.run_sequenced sampleEnvironment sparseChanges) hid
      (by decide)).mp h
    have hexpired : 0 < floorOf (Store.run sampleEnvironment sparseChanges).db (.thread "t") ∧
        (∀ e ∈ eventsOf (Store.run sampleEnvironment sparseChanges).db (.thread "t"),
          e.scopeSequence ≠ 4 + 1) ∧
        4 + 1 < nextOf (Store.run sampleEnvironment sparseChanges).db (.thread "t") := by
      decide +kernel
    have hkept : ∀ r ∈ journaledEvents (Store.run sampleEnvironment sparseChanges).log,
        4 < r.scopeSequence →
          ∃ e ∈ (Store.run sampleEnvironment sparseChanges).db.events, eventRecord e = r := by
      decide +kernel
    obtain ⟨r, hlost, _, hgt⟩ := hiff.mp hexpired
    obtain ⟨e, he, heq⟩ := hkept r hlost.1 hgt
    exact hlost.2 e he heq

end CodexBridge.Journal
