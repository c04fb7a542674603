import CodexBridge.Panel.DraftRecovery

/-! # Forgotten revisions

Revisions are ordered. Expiry and the record limit drop drafts and tombstones, and raise
the floor to what they drop.
-/

namespace CodexBridge.Panel

variable {s : RecoverySettings}

/-! ## The order of revisions -/

instance : Std.TransCmp s.localeCompare := s.consistent

theorem compareRevisions_eq (left right : DraftRevision) :
    compareRevisions s left right =
      compareLex (compareOn DraftRevision.atTime)
        (compareLex (fun l r => s.localeCompare l.writer r.writer)
          (compareOn DraftRevision.sequence)) left right := by
  simp only [compareRevisions, compareLex, compareOn]
  by_cases htime : left.atTime = right.atTime
  · rw [if_neg (by simpa using htime), htime, Std.ReflOrd.compare_self]
    cases hw : s.localeCompare left.writer right.writer with
    | lt => rfl
    | gt => rfl
    | eq =>
      change _ = compare left.sequence right.sequence
      simp only
      rw [Nat.compare_eq_ite_lt]
      split
      · rename_i h
        simp [h]
      rename_i h
      split
      · rfl
      · rw [if_pos (by omega)]
  · rw [if_pos htime]
    split
    · rename_i hlt
      rw [compare_lt_iff_lt.mpr hlt]
      rfl
    · rename_i hlt
      rw [compare_gt_iff_gt.mpr (lt_of_le_of_ne (not_lt.mp hlt) (Ne.symm htime))]
      rfl

instance : Std.TransCmp (compareRevisions s) := by
  have heq : compareRevisions s = compareLex (compareOn DraftRevision.atTime)
      (compareLex (fun l r => s.localeCompare l.writer r.writer)
        (compareOn DraftRevision.sequence)) :=
    funext fun l => funext fun r => compareRevisions_eq l r
  have hwriter : Std.TransCmp fun l r : DraftRevision => s.localeCompare l.writer r.writer :=
    { eq_swap := Std.OrientedCmp.eq_swap
      isLE_trans := Std.TransCmp.isLE_trans }
  rw [heq]
  infer_instance

instance : Std.TransCmp (compareDraftRevision s) where
  eq_swap := by
    intro left right
    cases left <;> cases right <;> simp only [compareDraftRevision, Ordering.swap]
    exact Std.OrientedCmp.eq_swap
  isLE_trans := by
    intro a b c hab hbc
    cases a with
    | none => cases c <;> rfl
    | some a =>
      cases b with
      | none => cases hab
      | some b =>
        cases c with
        | none => cases hbc
        | some c =>
          change (compareRevisions s a b).isLE at hab
          change (compareRevisions s b c).isLE at hbc
          change (compareRevisions s a c).isLE
          exact Std.TransCmp.isLE_trans hab hbc

def AtMost (s : RecoverySettings) (left right : Option DraftRevision) : Prop :=
  (compareDraftRevision s left right).isLE = true

instance (left right : Option DraftRevision) : Decidable (AtMost s left right) :=
  inferInstanceAs (Decidable (_ = _))

def Older (s : RecoverySettings) (left right : DraftRevision) : Prop :=
  compareRevisions s left right = .lt

instance (left right : DraftRevision) : Decidable (Older s left right) :=
  inferInstanceAs (Decidable (_ = _))

theorem AtMost.refl (a : Option DraftRevision) : AtMost s a a :=
  Std.ReflCmp.isLE_rfl

theorem AtMost.trans {a b c : Option DraftRevision} (hab : AtMost s a b) (hbc : AtMost s b c) :
    AtMost s a c := Std.TransCmp.isLE_trans hab hbc

theorem AtMost.of_not {a b : Option DraftRevision} (h : ¬ AtMost s a b) : AtMost s b a := by
  have hgt := Std.OrientedCmp.lt_of_not_isLE h
  unfold AtMost
  rw [hgt]
  rfl

theorem atMost_iff_not_older (a b : DraftRevision) :
    AtMost s (some a) (some b) ↔ ¬ Older s b a := by
  constructor
  · intro h
    exact Std.OrientedCmp.not_lt_of_isLE h
  · intro h
    by_contra hn
    exact h (Std.OrientedCmp.lt_of_not_isLE hn)

theorem not_atMost_of_older {a b : DraftRevision} (h : Older s a b) :
    ¬ AtMost s (some b) (some a) := fun hn => (atMost_iff_not_older b a).mp hn h

theorem maxRevision_cases (a b : Option DraftRevision) :
    (maxRevision s a b = a ∧ AtMost s b a) ∨ (maxRevision s a b = b ∧ AtMost s a b) := by
  unfold maxRevision
  split
  · rename_i h
    exact .inl ⟨rfl, Std.OrientedCmp.isLE_of_isGE h⟩
  · rename_i h
    refine .inr ⟨rfl, AtMost.of_not fun hn => h ?_⟩
    exact Std.OrientedCmp.isGE_of_isLE hn

theorem left_atMost_max (a b : Option DraftRevision) : AtMost s a (maxRevision s a b) := by
  rcases maxRevision_cases (s := s) a b with ⟨h, _⟩ | ⟨h, hab⟩
  · rw [h]
    exact AtMost.refl a
  · rw [h]
    exact hab

theorem right_atMost_max (a b : Option DraftRevision) : AtMost s b (maxRevision s a b) := by
  rcases maxRevision_cases (s := s) a b with ⟨h, hba⟩ | ⟨h, _⟩
  · rw [h]
    exact hba
  · rw [h]
    exact AtMost.refl b

def Records.Has (c : Records) (r : DraftRevision) : Prop :=
  (∃ k record, c.drafts.get? k = some record ∧ record.revision = r) ∨
    ∃ k, c.owner.chatRevisions.get? k = some r

structure Forgets (s : RecoverySettings) (c c' : Records) : Prop where
  frame : c'.owner.version = c.owner.version ∧ c'.owner.ownerKey = c.owner.ownerKey ∧
    c'.owner.clearRevision = c.owner.clearRevision
  drafts : ∀ k record, c'.drafts.get? k = some record → c.drafts.get? k = some record
  revisions : ∀ k r, c'.owner.chatRevisions.get? k = some r → c.owner.chatRevisions.get? k = some r
  floor : AtMost s c.owner.floorRevision c'.owner.floorRevision
  source : c'.owner.floorRevision = c.owner.floorRevision ∨
    ∃ r, c.Has r ∧ c'.owner.floorRevision = some r
  lostDraft : ∀ k record, c.drafts.get? k = some record → c'.drafts.get? k = some record ∨
    AtMost s (some record.revision) c'.owner.floorRevision
  lostRevision : ∀ k r, c.owner.chatRevisions.get? k = some r →
    c'.owner.chatRevisions.get? k = some r ∨ AtMost s (some r) c'.owner.floorRevision
  size : c'.size ≤ c.size

theorem Forgets.refl (c : Records) : Forgets s c c where
  frame := ⟨rfl, rfl, rfl⟩
  drafts _ _ h := h
  revisions _ _ h := h
  floor := AtMost.refl _
  source := .inl rfl
  lostDraft _ _ h := .inl h
  lostRevision _ _ h := .inl h
  size := le_rfl

variable {r : DraftRevision}

theorem Forgets.has {c c' : Records} (h : Forgets s c c') (hr : c'.Has r) : c.Has r := by
  rcases hr with ⟨k, record, hk, hrev⟩ | ⟨k, hk⟩
  · exact .inl ⟨k, record, h.drafts k record hk, hrev⟩
  · exact .inr ⟨k, h.revisions k r hk⟩

theorem Forgets.trans {a b c : Records} (hab : Forgets s a b) (hbc : Forgets s b c) :
    Forgets s a c where
  frame := by
    obtain ⟨h1, h2, h3⟩ := hab.frame
    obtain ⟨h1', h2', h3'⟩ := hbc.frame
    exact ⟨h1'.trans h1, h2'.trans h2, h3'.trans h3⟩
  drafts k record h := hab.drafts k record (hbc.drafts k record h)
  revisions k r h := hab.revisions k r (hbc.revisions k r h)
  floor := hab.floor.trans hbc.floor
  source := by
    rcases hbc.source with h | ⟨r, hr, h⟩
    · rcases hab.source with h' | ⟨r, hr, h'⟩
      · exact .inl (h.trans h')
      · exact .inr ⟨r, hr, h.trans h'⟩
    · exact .inr ⟨r, hab.has hr, h⟩
  lostDraft k record h := by
    rcases hab.lostDraft k record h with h' | h'
    · exact hbc.lostDraft k record h'
    · exact .inr (h'.trans hbc.floor)
  lostRevision k r h := by
    rcases hab.lostRevision k r h with h' | h'
    · exact hbc.lostRevision k r h'
    · exact .inr (h'.trans hbc.floor)
  size := hbc.size.trans hab.size

variable {c : Records}

theorem floor_source (s : RecoverySettings) (hr : c.Has r) :
    maxRevision s c.owner.floorRevision (some r) = c.owner.floorRevision ∨
      ∃ r', c.Has r' ∧ maxRevision s c.owner.floorRevision (some r) = some r' := by
  rcases maxRevision_cases (s := s) c.owner.floorRevision (some r) with ⟨h, _⟩ | ⟨h, _⟩
  · exact .inl h
  · exact .inr ⟨r, hr, h⟩

variable {k : String} {record : DraftRecord}

theorem forgets_forgetDraft {k : String}
    (hk : c.drafts.get? k = some record) : Forgets s c (c.forgetDraft s k record) where
  frame := ⟨rfl, rfl, rfl⟩
  drafts k' record' h := by
    change (c.drafts.erase k).get? k' = _ at h
    exact (Dict.get?_erase_cases h).2
  revisions _ _ h := h
  floor := left_atMost_max _ _
  source := floor_source s (.inl ⟨k, record, hk, rfl⟩)
  lostDraft k' record' h := by
    change (c.drafts.erase k).get? k' = _ ∨ _
    rw [Dict.get?_erase]
    by_cases hkk : k' = k
    · subst hkk
      rw [hk] at h
      cases h
      exact .inr (right_atMost_max _ _)
    · rw [if_neg hkk]
      exact .inl h
  lostRevision _ _ h := .inl h
  size := Nat.add_le_add_right (Dict.size_erase_le _ _) _

theorem forgets_forgetRevision {k : String} (hk : c.owner.chatRevisions.get? k = some r) :
    Forgets s c (c.forgetRevision s k r) where
  frame := ⟨rfl, rfl, rfl⟩
  drafts _ _ h := h
  revisions k' r' h := by
    change (c.owner.chatRevisions.erase k).get? k' = _ at h
    exact (Dict.get?_erase_cases h).2
  floor := left_atMost_max _ _
  source := floor_source s (.inr ⟨k, hk⟩)
  lostDraft _ _ h := .inl h
  lostRevision k' r' h := by
    change (c.owner.chatRevisions.erase k).get? k' = _ ∨ _
    rw [Dict.get?_erase]
    by_cases hkk : k' = k
    · subst hkk
      rw [hk] at h
      cases h
      exact .inr (right_atMost_max _ _)
    · rw [if_neg hkk]
      exact .inl h
  size := Nat.add_le_add_left (Dict.size_erase_le _ _) _

theorem get?_forgetDraft_of_ne {k k' : String}
    (h : k' ≠ k) : (c.forgetDraft s k record).drafts.get? k' = c.drafts.get? k' := by
  change (c.drafts.erase k).get? k' = _
  rw [Dict.get?_erase, if_neg h]

theorem get?_forgetRevision_of_ne {k k' : String}
    (h : k' ≠ k) : (c.forgetRevision s k r).owner.chatRevisions.get? k' =
      c.owner.chatRevisions.get? k' := by
  change (c.owner.chatRevisions.erase k).get? k' = _
  rw [Dict.get?_erase, if_neg h]

theorem forgets_pruneDrafts (now : Reading) {entries : List (String × DraftRecord)}
    (hnodup : (entries.map Prod.fst).Nodup) (hin : ∀ e ∈ entries, c.drafts.get? e.1 = some e.2) :
    Forgets s c (pruneDrafts s now entries c) := by
  induction entries generalizing c with
  | nil => exact Forgets.refl c
  | cons e rest ih =>
    obtain ⟨k, record⟩ := e
    obtain ⟨hk, hrest⟩ := List.nodup_cons.mp hnodup
    unfold pruneDrafts
    split
    · refine (forgets_forgetDraft (hin (k, record) List.mem_cons_self)).trans (ih hrest ?_)
      intro e he
      have hne : e.1 ≠ k := fun heq => hk (List.mem_map.mpr ⟨e, he, heq⟩)
      rw [get?_forgetDraft_of_ne hne]
      exact hin e (List.mem_cons_of_mem _ he)
    · exact ih hrest fun e he => hin e (List.mem_cons_of_mem _ he)

theorem forgets_pruneRevisions (now : Reading) {entries : List (String × DraftRevision)}
    (hnodup : (entries.map Prod.fst).Nodup)
    (hin : ∀ e ∈ entries, c.owner.chatRevisions.get? e.1 = some e.2) :
    Forgets s c (pruneRevisions s now entries c) := by
  induction entries generalizing c with
  | nil => exact Forgets.refl c
  | cons e rest ih =>
    obtain ⟨k, r⟩ := e
    obtain ⟨hk, hrest⟩ := List.nodup_cons.mp hnodup
    unfold pruneRevisions
    split
    · refine (forgets_forgetRevision (hin (k, r) List.mem_cons_self)).trans (ih hrest ?_)
      intro e he
      have hne : e.1 ≠ k := fun heq => hk (List.mem_map.mpr ⟨e, he, heq⟩)
      rw [get?_forgetRevision_of_ne hne]
      exact hin e (List.mem_cons_of_mem _ he)
    · exact ih hrest fun e he => hin e (List.mem_cons_of_mem _ he)

theorem forgets_pruneExpired (c : Records) (now : Reading) : Forgets s c (pruneExpired s c now) :=
  (forgets_pruneDrafts now c.drafts.nodup fun e he =>
    (c.drafts.get?_eq_some_iff e.1 e.2).mpr he).trans
    (forgets_pruneRevisions now (Dict.nodup _) fun e he =>
      (Dict.get?_eq_some_iff _ e.1 e.2).mpr he)

theorem get?_pruneDrafts (now : Reading) {entries : List (String × DraftRecord)}
    (hk : c.drafts.get? k = some record) (hin : ∀ e ∈ entries, e.1 = k → e.2 = record)
    (hfresh : isExpired s now record.savedAt = false) :
    (pruneDrafts s now entries c).drafts.get? k = some record := by
  induction entries generalizing c with
  | nil => exact hk
  | cons e rest ih =>
    obtain ⟨k', record'⟩ := e
    have hrest : ∀ e ∈ rest, e.1 = k → e.2 = record :=
      fun e he => hin e (List.mem_cons_of_mem _ he)
    unfold pruneDrafts
    split
    · rename_i hexpired
      refine ih ?_ hrest
      have hne : k ≠ k' := by
        intro heq
        have hsame := hin (k', record') List.mem_cons_self heq.symm
        rw [show record' = record from hsame, hfresh] at hexpired
        cases hexpired
      rw [get?_forgetDraft_of_ne hne]
      exact hk
    · exact ih hk hrest

theorem pruneRevisions_drafts (now : Reading) (entries : List (String × DraftRevision))
    (c : Records) : (pruneRevisions s now entries c).drafts = c.drafts := by
  induction entries generalizing c with
  | nil => rfl
  | cons e rest ih =>
    obtain ⟨k, r⟩ := e
    unfold pruneRevisions
    split
    · exact (ih _).trans rfl
    · exact ih c

theorem get?_pruneExpired {now : Reading} {k : String}
    (hk : c.drafts.get? k = some record) (hfresh : isExpired s now record.savedAt = false) :
    (pruneExpired s c now).drafts.get? k = some record := by
  unfold pruneExpired
  rw [pruneRevisions_drafts]
  refine get?_pruneDrafts now hk (fun e he hek => ?_) hfresh
  have hget := (c.drafts.get?_eq_some_iff e.1 e.2).mpr he
  rw [hek, hk] at hget
  exact (Option.some.inj hget).symm

/-! ## The record limit -/

/-- The lists the eviction works on are those of the records. -/
structure Mirrors (c : Records) (entries : List (String × DraftRecord))
    (revisions : List (String × DraftRevision)) : Prop where
  hasDraft : ∀ k record, c.drafts.get? k = some record ↔ (k, record) ∈ entries
  hasRevision : ∀ k r, c.owner.chatRevisions.get? k = some r ↔ (k, r) ∈ revisions
  draftKeys : (entries.map Prod.fst).Nodup
  revisionKeys : (revisions.map Prod.fst).Nodup

section

variable {c : Records} {entries : List (String × DraftRecord)}
  {revisions : List (String × DraftRevision)} {k : String}

theorem Mirrors.forgetDraft {record : DraftRecord}
    (h : Mirrors c ((k, record) :: entries) revisions) :
    Mirrors (c.forgetDraft s k record) entries revisions where
  hasDraft k' record' := by
    change (c.drafts.erase k).get? k' = _ ↔ _
    obtain ⟨hk, _⟩ := List.nodup_cons.mp h.draftKeys
    rw [Dict.get?_erase]
    by_cases hkk : k' = k
    · subst hkk
      rw [if_pos rfl]
      constructor
      · intro hn
        cases hn
      · intro hm
        exact absurd (List.mem_map.mpr ⟨_, hm, rfl⟩) hk
    · rw [if_neg hkk, h.hasDraft, List.mem_cons]
      exact ⟨fun hm => hm.resolve_left fun he => hkk (Prod.mk.inj he).1, .inr⟩
  hasRevision := h.hasRevision
  draftKeys := (List.nodup_cons.mp h.draftKeys).2
  revisionKeys := h.revisionKeys

theorem Mirrors.forgetRevision {r : DraftRevision} (h : Mirrors c entries ((k, r) :: revisions)) :
    Mirrors (c.forgetRevision s k r) entries revisions where
  hasDraft := h.hasDraft
  hasRevision k' r' := by
    change (c.owner.chatRevisions.erase k).get? k' = _ ↔ _
    obtain ⟨hk, _⟩ := List.nodup_cons.mp h.revisionKeys
    rw [Dict.get?_erase]
    by_cases hkk : k' = k
    · subst hkk
      rw [if_pos rfl]
      constructor
      · intro hn
        cases hn
      · intro hm
        exact absurd (List.mem_map.mpr ⟨_, hm, rfl⟩) hk
    · rw [if_neg hkk, h.hasRevision, List.mem_cons]
      exact ⟨fun hm => hm.resolve_left fun he => hkk (Prod.mk.inj he).1, .inr⟩
  draftKeys := h.draftKeys
  revisionKeys := (List.nodup_cons.mp h.revisionKeys).2

theorem Mirrors.size_nil (h : Mirrors c [] []) : c.size = 0 := by
  have hdrafts : c.drafts.entries = [] := by
    refine List.eq_nil_iff_forall_not_mem.mpr fun e he => ?_
    have hm := (h.hasDraft e.1 e.2).mp ((c.drafts.get?_eq_some_iff e.1 e.2).mpr he)
    cases hm
  have hrevisions : c.owner.chatRevisions.entries = [] := by
    refine List.eq_nil_iff_forall_not_mem.mpr fun e he => ?_
    have hm := (h.hasRevision e.1 e.2).mp ((Dict.get?_eq_some_iff _ e.1 e.2).mpr he)
    cases hm
  unfold Records.size Dict.size
  rw [hdrafts, hrevisions]
  rfl

theorem size_forgetDraft_lt {record : DraftRecord} (h : c.drafts.get? k = some record) :
    (c.forgetDraft s k record).size < c.size :=
  Nat.add_lt_add_right (Dict.size_erase_lt _ h) _

theorem size_forgetRevision_lt {r : DraftRevision} (h : c.owner.chatRevisions.get? k = some r) :
    (c.forgetRevision s k r).size < c.size :=
  Nat.add_lt_add_left (Dict.size_erase_lt _ h) _

theorem evict_cases (n : Nat) (h : Mirrors c entries revisions) (hlimit : c.size > s.maxRecords) :
    (∃ k record later, entries = (k, record) :: later ∧
      evict s (n + 1) entries revisions c = evict s n later revisions (c.forgetDraft s k record) ∧
      ∀ e ∈ revisions.head?, record.savedAt < e.2.atTime) ∨
    ∃ k r later, revisions = (k, r) :: later ∧
      evict s (n + 1) entries revisions c = evict s n entries later (c.forgetRevision s k r) := by
  cases entries with
  | nil =>
    cases revisions with
    | nil =>
      have hzero := h.size_nil
      omega
    | cons e later =>
      obtain ⟨k, r⟩ := e
      refine .inr ⟨k, r, later, rfl, ?_⟩
      rw [evict, if_pos hlimit]
  | cons d rest =>
    obtain ⟨k, record⟩ := d
    cases revisions with
    | nil =>
      refine .inl ⟨k, record, rest, rfl, ?_, fun e he => by cases he⟩
      rw [evict, if_pos hlimit]
    | cons e later =>
      obtain ⟨k', r⟩ := e
      by_cases hle : r.atTime ≤ record.savedAt
      · refine .inr ⟨k', r, later, rfl, ?_⟩
        rw [evict, if_pos hlimit]
        exact if_pos hle
      refine .inl ⟨k, record, rest, rfl, ?_, fun e he => ?_⟩
      · rw [evict, if_pos hlimit]
        exact if_neg hle
      · cases he
        exact not_le.mp hle

theorem evict_of_le (n : Nat) (hlimit : c.size ≤ s.maxRecords) :
    evict s n entries revisions c = c := by
  cases n with
  | zero => rfl
  | succ n => exact if_neg (by omega)

theorem forgets_evict (n : Nat) (h : Mirrors c entries revisions) (hn : c.size ≤ n) :
    Forgets s c (evict s n entries revisions c) ∧
      (evict s n entries revisions c).size ≤ s.maxRecords := by
  induction n generalizing c entries revisions with
  | zero =>
    refine ⟨Forgets.refl c, ?_⟩
    change c.size ≤ s.maxRecords
    omega
  | succ n ih =>
    by_cases hlimit : c.size > s.maxRecords
    · rcases evict_cases n h hlimit with ⟨k, record, later, rfl, heq, _⟩ |
        ⟨k, r, later, rfl, heq⟩
      · have hk := (h.hasDraft k record).mpr List.mem_cons_self
        have hlt := size_forgetDraft_lt (s := s) hk
        obtain ⟨hforgets, hsize⟩ := ih (h.forgetDraft (s := s)) (by omega)
        rw [heq]
        exact ⟨(forgets_forgetDraft hk).trans hforgets, hsize⟩
      · have hk := (h.hasRevision k r).mpr List.mem_cons_self
        have hlt := size_forgetRevision_lt (s := s) hk
        obtain ⟨hforgets, hsize⟩ := ih (h.forgetRevision (s := s)) (by omega)
        rw [heq]
        exact ⟨(forgets_forgetRevision hk).trans hforgets, hsize⟩
    · rw [evict_of_le (n + 1) (by omega)]
      exact ⟨Forgets.refl c, by omega⟩

end

theorem mirrors_sorted (c : Records) :
    Mirrors c (c.drafts.entries.insertionSort (earlierDraft s))
      (c.owner.chatRevisions.entries.insertionSort (earlierRevision s)) where
  hasDraft k record := by rw [List.mem_insertionSort, Dict.get?_eq_some_iff]
  hasRevision k r := by rw [List.mem_insertionSort, Dict.get?_eq_some_iff]
  draftKeys := by
    have hperm := (List.perm_insertionSort (earlierDraft s) c.drafts.entries).map Prod.fst
    exact hperm.nodup_iff.mpr c.drafts.nodup
  revisionKeys := by
    have hperm := (List.perm_insertionSort (earlierRevision s)
      c.owner.chatRevisions.entries).map Prod.fst
    exact hperm.nodup_iff.mpr (Dict.nodup _)

theorem forgets_enforceRecordLimit (c : Records) :
    Forgets s c (enforceRecordLimit s c) ∧ (enforceRecordLimit s c).size ≤ s.maxRecords :=
  forgets_evict c.size (mirrors_sorted c) le_rfl

instance : Std.Total (earlierDraft s) where
  total a b := by
    rcases lt_trichotomy a.2.savedAt b.2.savedAt with h | h | h
    · exact .inl (.inl h)
    · by_cases hle : (compareRevisions s a.2.revision b.2.revision).isLE = true
      · exact .inl (.inr ⟨h, hle⟩)
      have hlt := Std.OrientedCmp.lt_of_not_isLE hle
      refine .inr (.inr ⟨h.symm, ?_⟩)
      rw [hlt]
      rfl
    · exact .inr (.inl h)

instance : IsTrans (String × DraftRecord) (earlierDraft s) where
  trans a b c hab hbc := by
    rcases hab with hab | ⟨hab, hab'⟩
    · rcases hbc with hbc | ⟨hbc, _⟩
      · exact .inl (hab.trans hbc)
      · exact .inl (hbc ▸ hab)
    · rcases hbc with hbc | ⟨hbc, hbc'⟩
      · exact .inl (hab ▸ hbc)
      · exact .inr ⟨hab.trans hbc, Std.TransCmp.isLE_trans hab' hbc'⟩

theorem get?_enforceRecordLimit {k : String}
    (hk : c.drafts.get? k = some record) (hsize : c.size ≤ s.maxRecords + 1)
    (hdrafts : ∀ k' record', k' ≠ k → c.drafts.get? k' = some record' →
      ¬ earlierDraft s (k, record) (k', record'))
    (hrevisions : ∀ k' r, c.owner.chatRevisions.get? k' = some r → r.atTime ≤ record.savedAt) :
    (enforceRecordLimit s c).drafts.get? k = some record := by
  unfold enforceRecordLimit
  by_cases hlimit : c.size > s.maxRecords
  · obtain ⟨n, hn⟩ : ∃ n, c.size = n + 1 := ⟨c.size - 1, by omega⟩
    have hmirrors := mirrors_sorted (s := s) c
    have hsorted := List.pairwise_insertionSort (earlierDraft s) c.drafts.entries
    generalize hentries : c.drafts.entries.insertionSort (earlierDraft s) = entries
      at hmirrors hsorted
    generalize hrevs : c.owner.chatRevisions.entries.insertionSort (earlierRevision s) = revisions
      at hmirrors
    rw [hn]
    rcases evict_cases n hmirrors hlimit with ⟨k', record', later, rfl, heq, hhead⟩ |
      ⟨k', r, later, rfl, heq⟩
    · have hk' := (hmirrors.hasDraft k' record').mpr List.mem_cons_self
      have hlt := size_forgetDraft_lt (s := s) hk'
      rw [heq, evict_of_le n (by omega)]
      by_cases hkk : k = k'
      · -- it would be the only draft, and every tombstone is no later
        subst hkk
        exfalso
        rw [hk] at hk'
        cases hk'
        have hlater : later = [] := by
          refine List.eq_nil_iff_forall_not_mem.mpr fun e he => ?_
          have hne : e.1 ≠ k := fun heq' =>
            (List.nodup_cons.mp hmirrors.draftKeys).1 (List.mem_map.mpr ⟨e, he, heq'⟩)
          have hget := (hmirrors.hasDraft e.1 e.2).mpr (List.mem_cons_of_mem _ he)
          exact hdrafts e.1 e.2 hne hget ((List.pairwise_cons.mp hsorted).1 e he)
        subst hlater
        cases revisions with
        | nil =>
          have hzero := (hmirrors.forgetDraft (s := s)).size_nil
          have hone : c.size = (c.forgetDraft s k record).size + 1 := by
            have hpos := s.maxRecords_pos
            have hd : c.drafts.size ≤ 1 := by
              have hlen := (List.perm_insertionSort (earlierDraft s)
                c.drafts.entries).length_eq
              rw [hentries] at hlen
              exact hlen.symm.le
            have hr : c.owner.chatRevisions.size = 0 := by
              change (c.drafts.erase k).size + c.owner.chatRevisions.size = 0 at hzero
              omega
            unfold Records.size at hn hlt ⊢
            omega
          have hpos := s.maxRecords_pos
          omega
        | cons e rest =>
          have hle := hrevisions e.1 e.2 ((hmirrors.hasRevision e.1 e.2).mpr List.mem_cons_self)
          have hgt := hhead e rfl
          exact absurd hle (not_le.mpr hgt)
      · rw [get?_forgetDraft_of_ne hkk]
        exact hk
    · have hk' := (hmirrors.hasRevision k' r).mpr List.mem_cons_self
      have hlt := size_forgetRevision_lt (s := s) hk'
      rw [heq, evict_of_le n (by omega)]
      exact hk
  · rw [evict_of_le _ (by omega)]
    exact hk

end CodexBridge.Panel
