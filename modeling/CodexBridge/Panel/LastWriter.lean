import CodexBridge.Panel.Forgetting

/-! # The last writer wins

Whatever the stores forget raises the floor, so a write that comes late is refused. Only a
clear that is itself late forgets a newer revision.
-/

namespace CodexBridge.Panel

variable {s : RecoverySettings}

/-! ## What a transaction writes is admitted -/

structure Records.Valid (s : RecoverySettings) (c : Records) : Prop where
  version : c.owner.version = storageVersion
  ownerKey : c.owner.ownerKey = s.ownerKey
  drafts : ∀ k record, c.drafts.get? k = some record → (validateDraftRecord s record).isSome
  revisions : ∀ k r, c.owner.chatRevisions.get? k = some r →
    isChatId k = true ∧ validDraftRevision r = true
  floor : ∀ r, c.owner.floorRevision = some r → validDraftRevision r = true
  clear : ∀ r, c.owner.clearRevision = some r → validDraftRevision r = true

theorem validateDraftRecord_revision {record : DraftRecord}
    (h : (validateDraftRecord s record).isSome) : validDraftRevision record.revision = true := by
  unfold validateDraftRecord at h
  split at h
  · rename_i hall
    exact hall.2.2.2.2.2.2.1
  · cases h

theorem Records.Valid.of_has {c : Records} (h : c.Valid s) {r : DraftRevision} (hr : c.Has r) :
    validDraftRevision r = true := by
  rcases hr with ⟨k, record, hk, rfl⟩ | ⟨k, hk⟩
  · exact validateDraftRecord_revision (h.drafts k record hk)
  · exact (h.revisions k r hk).2

theorem Forgets.valid {c c' : Records} (h : Forgets s c c') (hv : c.Valid s) : c'.Valid s where
  version := h.frame.1.trans hv.version
  ownerKey := h.frame.2.1.trans hv.ownerKey
  drafts k record hk := hv.drafts k record (h.drafts k record hk)
  revisions k r hk := hv.revisions k r (h.revisions k r hk)
  floor r hr := by
    rcases h.source with heq | ⟨r', hr', heq⟩
    · exact hv.floor r (heq ▸ hr)
    rw [heq] at hr
    cases hr
    exact hv.of_has hr'
  clear r hr := hv.clear r (h.frame.2.2 ▸ hr)

def Database.records (s : RecoverySettings) (db : Database) : Records :=
  ⟨db.drafts, db.owner.getD (.blank s.ownerKey)⟩

variable {db : Database}

theorem validateDraftOwner_eq (hv : (db.records s).Valid s)
    (hsize : (db.records s).size ≤ s.maxRecords) :
    validateDraftOwner s db.owner = some (db.records s).owner := by
  cases ho : db.owner with
  | none =>
    unfold Database.records
    rw [ho]
    rfl
  | some owner =>
    have heq : (db.records s).owner = owner := by
      unfold Database.records
      rw [ho]
      rfl
    have hle : owner.chatRevisions.size ≤ s.maxRecords := by
      unfold Records.size at hsize
      rw [heq] at hsize
      omega
    rw [heq]
    unfold validateDraftOwner
    refine if_pos ⟨heq ▸ hv.version, heq ▸ hv.ownerKey, ?_, ?_, hle, ?_⟩
    · rw [Option.all_eq_true]
      exact fun r hr => hv.clear r (heq ▸ hr)
    · rw [Option.all_eq_true]
      exact fun r hr => hv.floor r (heq ▸ hr)
    · rw [List.all_eq_true]
      intro e he
      have hget := (Dict.get?_eq_some_iff _ e.1 e.2).mpr he
      obtain ⟨hchat, hrev⟩ := hv.revisions e.1 e.2 (heq ▸ hget)
      rw [hchat, hrev]
      rfl

theorem admitted_eq (hv : (db.records s).Valid s)
    (hsize : (db.records s).size ≤ s.maxRecords) (repairCorrupt : Bool) :
    admitted s db repairCorrupt = some (db.records s) := by
  have howner := validateDraftOwner_eq hv hsize
  have hfilter : (db.drafts.filter fun _ record => (validateDraftRecord s record).isSome) =
      db.drafts := by
    have hentries : db.drafts.entries.filter
        (fun e => (validateDraftRecord s e.2).isSome) = db.drafts.entries :=
      List.filter_eq_self.mpr fun e he =>
        hv.drafts e.1 e.2 ((db.drafts.get?_eq_some_iff e.1 e.2).mpr he)
    unfold Dict.filter
    cases hd : db.drafts with
    | mk entries nodup =>
      rw [hd] at hentries
      simp only [hentries]
  have hdrafts : db.drafts.size ≤ s.maxRecords := by
    unfold Records.size at hsize
    change db.drafts.size + _ ≤ _ at hsize
    omega
  have hsum : db.drafts.size + (db.records s).owner.chatRevisions.size ≤ s.maxRecords := hsize
  unfold admitted
  simp only [howner, hfilter]
  rw [if_neg]
  · rfl
  simp only [Option.any_some, Option.isNone_some, ne_eq, not_true_eq_false, decide_false,
    Bool.or_false, Bool.and_eq_true, Bool.or_eq_true, decide_eq_true_eq, not_and, not_or]
  intro _
  exact ⟨by omega, by omega⟩

def Write.chat? : Write → Option String
  | .save chatId _ _ => some chatId
  | .remove chatId _ _ _ => some chatId
  | .clear _ => none

def Write.Concerns (w : Write) (chatId : String) : Prop :=
  w.chat? = none ∨ w.chat? = some chatId

def Records.Covers (s : RecoverySettings) (c : Records) (chatId : String) (r : DraftRevision) :
    Prop :=
  (∃ record, c.drafts.get? chatId = some record ∧ AtMost s (some r) (some record.revision)) ∨
    (∃ r', c.owner.chatRevisions.get? chatId = some r' ∧ AtMost s (some r) (some r')) ∨
      AtMost s (some r) c.owner.floorRevision

/-- The records know the writes that took effect. -/
structure Remembers (s : RecoverySettings) (applied : List Write) (c : Records) : Prop where
  origin : ∀ r, c.Has r → ∃ a ∈ applied, a.revision = r
  originFloor : ∀ r, c.owner.floorRevision = some r → ∃ a ∈ applied, a.revision = r
  originClear : ∀ r, c.owner.clearRevision = some r → ∃ a ∈ applied, a.revision = r
  held : ∀ a ∈ applied, ∀ k, a.chat? = some k → c.Covers s k a.revision
  cleared : ∀ a ∈ applied, a.chat? = none → AtMost s (some a.revision) c.owner.floorRevision
  current : ∀ k record, c.drafts.get? k = some record → ∀ a ∈ applied, a.Concerns k →
    AtMost s (some a.revision) (some record.revision)
  stamped : ∀ k record, c.drafts.get? k = some record → record.savedAt = record.revision.atTime

variable {applied : List Write}

theorem Forgets.remembers {c c' : Records} (h : Forgets s c c')
    (hr : Remembers s applied c) : Remembers s applied c' where
  origin r hhas := hr.origin r (h.has hhas)
  originFloor r hfloor := by
    rcases h.source with heq | ⟨r', hr', heq⟩
    · exact hr.originFloor r (heq ▸ hfloor)
    rw [heq] at hfloor
    cases hfloor
    exact hr.origin r hr'
  originClear r hclear := hr.originClear r (h.frame.2.2 ▸ hclear)
  held a ha k hk := by
    rcases hr.held a ha k hk with ⟨record, hget, hle⟩ | ⟨r', hget, hle⟩ | hle
    · rcases h.lostDraft k record hget with hget' | hfloor
      · exact .inl ⟨record, hget', hle⟩
      · exact .inr (.inr (hle.trans hfloor))
    · rcases h.lostRevision k r' hget with hget' | hfloor
      · exact .inr (.inl ⟨r', hget', hle⟩)
      · exact .inr (.inr (hle.trans hfloor))
    · exact .inr (.inr (hle.trans h.floor))
  cleared a ha hnone := (hr.cleared a ha hnone).trans h.floor
  current k record hk := hr.current k record (h.drafts k record hk)
  stamped k record hk := hr.stamped k record (h.drafts k record hk)

/-! ## A save, a removal, a clear -/

structure Newer (s : RecoverySettings) (c : Records) (chatId : String) (r : DraftRevision) :
    Prop where
  floor : AtMost s c.owner.floorRevision (some r)
  prior : AtMost s (c.priorRevision s chatId) (some r)

section

variable {c : Records} {applied : List Write} {chatId : String} {r : DraftRevision}

theorem newer_of_accepted (hstale : c.isStale s r = false)
    (hprior : (compareDraftRevision s (some r) (c.priorRevision s chatId)).isLE = false) :
    Newer s c chatId r := by
  unfold Records.isStale at hstale
  rw [Bool.or_eq_false_iff] at hstale
  refine ⟨AtMost.of_not fun h => ?_, AtMost.of_not fun h => ?_⟩
  · unfold AtMost at h
    rw [hstale.2] at h
    cases h
  · unfold AtMost at h
    rw [hprior] at h
    cases h

theorem draft_atMost_prior {record : DraftRecord} (h : c.drafts.get? chatId = some record) :
    AtMost s (some record.revision) (c.priorRevision s chatId) := by
  unfold Records.priorRevision
  rw [h]
  exact left_atMost_max _ _

theorem revision_atMost_prior {r' : DraftRevision}
    (h : c.owner.chatRevisions.get? chatId = some r') :
    AtMost s (some r') (c.priorRevision s chatId) := by
  unfold Records.priorRevision
  rw [h]
  exact right_atMost_max _ _

theorem Remembers.atMost (hr : Remembers s applied c) (hn : Newer s c chatId r) {a : Write}
    (ha : a ∈ applied) (hc : a.Concerns chatId) : AtMost s (some a.revision) (some r) := by
  rcases hc with hnone | hchat
  · exact (hr.cleared a ha hnone).trans hn.floor
  rcases hr.held a ha chatId hchat with ⟨record, hget, hle⟩ | ⟨r', hget, hle⟩ | hle
  · exact hle.trans ((draft_atMost_prior hget).trans hn.prior)
  · exact hle.trans ((revision_atMost_prior hget).trans hn.prior)
  · exact hle.trans hn.floor

def Records.withDraft (s : RecoverySettings) (c : Records) (chatId text : String)
    (r : DraftRevision) : Records :=
  ⟨c.drafts.set chatId (draftRecord s chatId text r),
    { c.owner with chatRevisions := c.owner.chatRevisions.erase chatId }⟩

def Records.withTombstone (c : Records) (chatId : String) (r : DraftRevision) : Records :=
  ⟨c.drafts.erase chatId,
    { c.owner with chatRevisions := c.owner.chatRevisions.set chatId r }⟩

theorem get?_withDraft (text : String) (k : String) :
    (c.withDraft s chatId text r).drafts.get? k =
      if k = chatId then some (draftRecord s chatId text r) else c.drafts.get? k :=
  Dict.get?_set _ _ _ _

theorem get?_withDraft_revisions (text : String) (k : String) :
    (c.withDraft s chatId text r).owner.chatRevisions.get? k =
      if k = chatId then none else c.owner.chatRevisions.get? k := Dict.get?_erase _ _ _

theorem get?_withTombstone (k : String) :
    (c.withTombstone chatId r).drafts.get? k = if k = chatId then none else c.drafts.get? k :=
  Dict.get?_erase _ _ _

theorem get?_withTombstone_revisions (k : String) :
    (c.withTombstone chatId r).owner.chatRevisions.get? k =
      if k = chatId then some r else c.owner.chatRevisions.get? k := Dict.get?_set _ _ _ _

theorem Write.concerns_iff {w : Write} (h : w.chat? = some chatId) (k : String) :
    w.Concerns k ↔ k = chatId := by
  unfold Write.Concerns
  rw [h]
  simp [eq_comm]

theorem mem_origin {w : Write} {r' : DraftRevision} (h : ∃ a ∈ applied, a.revision = r') :
    ∃ a ∈ applied ++ [w], a.revision = r' := by
  obtain ⟨a, ha, heq⟩ := h
  exact ⟨a, List.mem_append_left _ ha, heq⟩

theorem Remembers.withDraft (hr : Remembers s applied c) (hn : Newer s c chatId r)
    (text : String) : Remembers s (applied ++ [.save chatId text r])
      (c.withDraft s chatId text r) where
  origin r' hhas := by
    rcases hhas with ⟨k, record, hk, hrev⟩ | ⟨k, hk⟩
    · rw [get?_withDraft] at hk
      split at hk
      · cases hk
        exact ⟨_, List.mem_append_right _ List.mem_cons_self, hrev⟩
      · exact mem_origin (hr.origin r' (.inl ⟨k, record, hk, hrev⟩))
    · rw [get?_withDraft_revisions] at hk
      split at hk
      · cases hk
      · exact mem_origin (hr.origin r' (.inr ⟨k, hk⟩))
  originFloor r' h := mem_origin (hr.originFloor r' h)
  originClear r' h := mem_origin (hr.originClear r' h)
  held a ha k hk := by
    have hnew : a.Concerns chatId → AtMost s (some a.revision) (some r) := by
      intro hc
      rcases List.mem_append.mp ha with ha | ha
      · exact hr.atMost hn ha hc
      · rw [List.mem_singleton.mp ha]
        exact AtMost.refl _
    by_cases hkk : k = chatId
    · subst hkk
      refine .inl ⟨draftRecord s k text r, ?_, hnew (.inr hk)⟩
      rw [get?_withDraft, if_pos rfl]
    rcases List.mem_append.mp ha with ha | ha
    · unfold Records.Covers
      rw [get?_withDraft, if_neg hkk, get?_withDraft_revisions, if_neg hkk]
      exact hr.held a ha k hk
    · rw [List.mem_singleton.mp ha] at hk
      exact absurd (Option.some.inj hk).symm hkk
  cleared a ha hnone := by
    rcases List.mem_append.mp ha with ha | ha
    · exact hr.cleared a ha hnone
    · rw [List.mem_singleton.mp ha] at hnone
      cases hnone
  current k record hk a ha hc := by
    rw [get?_withDraft] at hk
    rcases List.mem_append.mp ha with ha | ha
    · split at hk
      · rename_i hkk
        cases hk
        exact hr.atMost hn ha (hkk ▸ hc)
      · exact hr.current k record hk a ha hc
    · rw [List.mem_singleton.mp ha] at hc ⊢
      have hkk := (Write.concerns_iff rfl k).mp hc
      rw [if_pos hkk] at hk
      cases hk
      exact AtMost.refl _
  stamped k record hk := by
    rw [get?_withDraft] at hk
    split at hk
    · cases hk
      rfl
    · exact hr.stamped k record hk

theorem Remembers.withTombstone (hr : Remembers s applied c) (hn : Newer s c chatId r)
    {w : Write} (hw : w.chat? = some chatId) (hwr : w.revision = r) :
    Remembers s (applied ++ [w]) (c.withTombstone chatId r) where
  origin r' hhas := by
    rcases hhas with ⟨k, record, hk, hrev⟩ | ⟨k, hk⟩
    · rw [get?_withTombstone] at hk
      split at hk
      · cases hk
      · exact mem_origin (hr.origin r' (.inl ⟨k, record, hk, hrev⟩))
    · rw [get?_withTombstone_revisions] at hk
      split at hk
      · cases hk
        exact ⟨w, List.mem_append_right _ List.mem_cons_self, hwr⟩
      · exact mem_origin (hr.origin r' (.inr ⟨k, hk⟩))
  originFloor r' h := mem_origin (hr.originFloor r' h)
  originClear r' h := mem_origin (hr.originClear r' h)
  held a ha k hk := by
    have hnew : a.Concerns chatId → AtMost s (some a.revision) (some r) := by
      intro hc
      rcases List.mem_append.mp ha with ha | ha
      · exact hr.atMost hn ha hc
      · rw [List.mem_singleton.mp ha, hwr]
        exact AtMost.refl _
    by_cases hkk : k = chatId
    · subst hkk
      refine .inr (.inl ⟨r, ?_, hnew (.inr hk)⟩)
      rw [get?_withTombstone_revisions, if_pos rfl]
    rcases List.mem_append.mp ha with ha | ha
    · unfold Records.Covers
      rw [get?_withTombstone, if_neg hkk, get?_withTombstone_revisions, if_neg hkk]
      exact hr.held a ha k hk
    · rw [List.mem_singleton.mp ha, hw] at hk
      exact absurd (Option.some.inj hk).symm hkk
  cleared a ha hnone := by
    rcases List.mem_append.mp ha with ha | ha
    · exact hr.cleared a ha hnone
    · rw [List.mem_singleton.mp ha, hw] at hnone
      cases hnone
  current k record hk a ha hc := by
    rw [get?_withTombstone] at hk
    split at hk
    · cases hk
    rename_i hkk
    rcases List.mem_append.mp ha with ha | ha
    · exact hr.current k record hk a ha hc
    · rw [List.mem_singleton.mp ha] at hc
      exact absurd ((Write.concerns_iff hw k).mp hc) hkk
  stamped k record hk := by
    rw [get?_withTombstone] at hk
    split at hk
    · cases hk
    · exact hr.stamped k record hk

theorem Remembers.clearAll (hr : Remembers s applied c)
    (hlate : ∀ r', c.Has r' → AtMost s (some r') (some r)) :
    Remembers s (applied ++ [.clear r]) (clearAll s c r).records where
  origin r' hhas := by
    rcases hhas with ⟨k, record, hk, _⟩ | ⟨k, hk⟩
    · cases hk
    · cases hk
  originFloor r' h := by
    change maxRevision s c.owner.floorRevision (some r) = some r' at h
    rcases maxRevision_cases (s := s) c.owner.floorRevision (some r) with ⟨heq, _⟩ | ⟨heq, _⟩
    · exact mem_origin (hr.originFloor r' (heq ▸ h))
    · rw [heq] at h
      exact ⟨_, List.mem_append_right _ List.mem_cons_self, Option.some.inj h⟩
  originClear r' h :=
    ⟨_, List.mem_append_right _ List.mem_cons_self, Option.some.inj h⟩
  held a ha k hk := by
    refine .inr (.inr ?_)
    rcases List.mem_append.mp ha with ha | ha
    · rcases hr.held a ha k hk with ⟨record, hget, hle⟩ | ⟨r', hget, hle⟩ | hle
      · exact (hle.trans (hlate _ (.inl ⟨k, record, hget, rfl⟩))).trans (right_atMost_max _ _)
      · exact (hle.trans (hlate r' (.inr ⟨k, hget⟩))).trans (right_atMost_max _ _)
      · exact hle.trans (left_atMost_max _ _)
    · rw [List.mem_singleton.mp ha]
      exact right_atMost_max _ _
  cleared a ha hnone := by
    rcases List.mem_append.mp ha with ha | ha
    · exact (hr.cleared a ha hnone).trans (left_atMost_max _ _)
    · rw [List.mem_singleton.mp ha]
      exact right_atMost_max _ _
  current k record hk := by cases hk
  stamped k record hk := by cases hk

end

/-! ## Transactions -/

/-- The records are admitted, within the limit, and know what took effect. -/
structure Sound (s : RecoverySettings) (applied : List Write) (c : Records) : Prop where
  valid : c.Valid s
  size : c.size ≤ s.maxRecords
  remembers : Remembers s applied c

theorem Forgets.sound {c c' : Records} (h : Forgets s c c')
    (hs : Sound s applied c) : Sound s applied c' :=
  ⟨h.valid hs.valid, h.size.trans hs.size, h.remembers hs.remembers⟩

structure Settles (s : RecoverySettings) (applied : List Write) (w : Write) (c : Records)
    (u : Updated) : Prop where
  sound : Sound s (applied ++ if u.answer.isApplied then [w] else []) u.records
  idle : u.changed = false → u.answer.isApplied = false
  floor : AtMost s c.owner.floorRevision u.records.owner.floorRevision

/-- A call carries what its checks let through. -/
def Write.Checked (s : RecoverySettings) : Write → Prop
  | .save chatId text revision => isChatId chatId = true ∧ utf16Length text ≤ s.maxDraftChars ∧
      validDraftRevision revision = true
  | .remove chatId _ _ revision => isChatId chatId = true ∧ validDraftRevision revision = true
  | .clear revision => validDraftRevision revision = true

section

variable {c : Records} {applied : List Write} {chatId text : String} {r : DraftRevision}
  {now : Reading}

theorem validateDraftRecord_draftRecord (hchat : isChatId chatId = true)
    (htext : utf16Length text ≤ s.maxDraftChars) (hr : validDraftRevision r = true) :
    (validateDraftRecord s (draftRecord s chatId text r)).isSome := by
  have htime : 0 ≤ r.atTime := by
    unfold validDraftRevision at hr
    rw [Bool.and_eq_true, Bool.and_eq_true] at hr
    exact of_decide_eq_true hr.1.1
  unfold validateDraftRecord
  rw [if_pos]
  · rfl
  · exact ⟨rfl, rfl, rfl, s.isOwnerKey_ownerKey, hchat, htime, hr, htext⟩

theorem Records.Valid.withDraft (h : c.Valid s)
    (hw : (Write.save chatId text r).Checked s) : (c.withDraft s chatId text r).Valid s where
  version := h.version
  ownerKey := h.ownerKey
  drafts k record hk := by
    rw [get?_withDraft] at hk
    split at hk
    · cases hk
      exact validateDraftRecord_draftRecord hw.1 hw.2.1 hw.2.2
    · exact h.drafts k record hk
  revisions k r' hk := by
    rw [get?_withDraft_revisions] at hk
    split at hk
    · cases hk
    · exact h.revisions k r' hk
  floor := h.floor
  clear := h.clear

theorem Records.Valid.withTombstone (h : c.Valid s) (hchat : isChatId chatId = true)
    (hr : validDraftRevision r = true) : (c.withTombstone chatId r).Valid s where
  version := h.version
  ownerKey := h.ownerKey
  drafts k record hk := by
    rw [get?_withTombstone] at hk
    split at hk
    · cases hk
    · exact h.drafts k record hk
  revisions k r' hk := by
    rw [get?_withTombstone_revisions] at hk
    split at hk
    · rename_i hkk
      cases hk
      exact ⟨hkk ▸ hchat, hr⟩
    · exact h.revisions k r' hk
  floor := h.floor
  clear := h.clear

theorem settles_pruned {w : Write} {answer : Answer} {changed : Bool}
    (hs : Sound s applied c) (ha : answer.isApplied = false) :
    Settles s applied w c ⟨answer, changed, pruneExpired s c now⟩ where
  sound := by
    rw [ha, if_neg Bool.false_ne_true, List.append_nil]
    exact (forgets_pruneExpired c now).sound hs
  idle _ := ha
  floor := (forgets_pruneExpired c now).floor

theorem saveDraft_cases (s : RecoverySettings) (c : Records) (now : Reading)
    (chatId text : String) (r : DraftRevision) :
    saveDraft s now c chatId text r =
        ⟨.failed "stale_write", hasExpired s c now, pruneExpired s c now⟩ ∨
      Newer s (pruneExpired s c now) chatId r ∧
        saveDraft s now c chatId text r = ⟨.saved r, true,
          enforceRecordLimit s ((pruneExpired s c now).withDraft s chatId text r)⟩ := by
  unfold saveDraft
  simp only
  split
  · exact .inl rfl
  rename_i hstale
  split
  · exact .inl rfl
  rename_i hprior
  rw [Bool.or_eq_true, not_or] at hstale
  refine .inr ⟨newer_of_accepted (by simpa using hstale.2) (by simpa using hprior), rfl⟩

theorem settles_saveDraft (now : Reading) (hs : Sound s applied c)
    (hw : (Write.save chatId text r).Checked s) :
    Settles s applied (.save chatId text r) c (saveDraft s now c chatId text r) := by
  rcases saveDraft_cases s c now chatId text r with heq | ⟨hn, heq⟩
  · rw [heq]
    exact settles_pruned hs rfl
  have hpruned := (forgets_pruneExpired c now).sound hs
  obtain ⟨hforgets, hsize⟩ := forgets_enforceRecordLimit (s := s)
    ((pruneExpired s c now).withDraft s chatId text r)
  rw [heq]
  refine ⟨⟨?_, hsize, ?_⟩, (fun hf => by cases hf), ?_⟩
  · exact hforgets.valid (hpruned.valid.withDraft hw)
  · exact hforgets.remembers (hpruned.remembers.withDraft hn text)
  · exact (forgets_pruneExpired c now).floor.trans hforgets.floor

/-- A removal is refused, does not apply, or is newer than what its chat knows. -/
theorem removeDraft_cases (s : RecoverySettings) (c : Records) (now : Reading)
    (chatId : String) (expectedText : Option String) (expectedRevision : Option DraftRevision)
    (r : DraftRevision) :
    (∃ answer, answer.isApplied = false ∧
      removeDraft s now c chatId expectedText expectedRevision r =
        ⟨answer, hasExpired s c now, pruneExpired s c now⟩) ∨
      Newer s (pruneExpired s c now) chatId r ∧
        removeDraft s now c chatId expectedText expectedRevision r = ⟨.removed true, true,
          enforceRecordLimit s ((pruneExpired s c now).withTombstone chatId r)⟩ := by
  unfold removeDraft
  simp only
  split
  · exact .inl ⟨_, rfl, rfl⟩
  rename_i hstale
  split
  · exact .inl ⟨_, rfl, rfl⟩
  split
  · exact .inl ⟨_, rfl, rfl⟩
  · rename_i hprior
    refine .inr ⟨newer_of_accepted (by simpa using hstale) (by simpa using hprior), rfl⟩

theorem settles_removeDraft (now : Reading) {expectedText : Option String}
    {expectedRevision : Option DraftRevision} (hs : Sound s applied c)
    (hw : (Write.remove chatId expectedText expectedRevision r).Checked s) :
    Settles s applied (.remove chatId expectedText expectedRevision r) c
      (removeDraft s now c chatId expectedText expectedRevision r) := by
  rcases removeDraft_cases s c now chatId expectedText expectedRevision r with
    ⟨answer, ha, heq⟩ | ⟨hn, heq⟩
  · rw [heq]
    exact settles_pruned hs ha
  have hpruned := (forgets_pruneExpired c now).sound hs
  obtain ⟨hforgets, hsize⟩ := forgets_enforceRecordLimit (s := s)
    ((pruneExpired s c now).withTombstone chatId r)
  rw [heq]
  refine ⟨⟨?_, hsize, ?_⟩, (fun hf => by cases hf), ?_⟩
  · exact hforgets.valid (hpruned.valid.withTombstone hw.1 hw.2)
  · exact hforgets.remembers (hpruned.remembers.withTombstone hn rfl rfl)
  · exact (forgets_pruneExpired c now).floor.trans hforgets.floor

theorem settles_clearAll (hs : Sound s applied c) (hw : validDraftRevision r = true)
    (hlate : ∀ r', c.Has r' → AtMost s (some r') (some r)) :
    Settles s applied (.clear r) c (clearAll s c r) where
  sound := by
    refine ⟨⟨hs.valid.version, hs.valid.ownerKey, (fun k record hk => by cases hk),
      (fun k r' hk => by cases hk), fun r' hr' => ?_, fun r' hr' => ?_⟩, Nat.zero_le _,
      hs.remembers.clearAll hlate⟩
    · change maxRevision s c.owner.floorRevision (some r) = some r' at hr'
      rcases maxRevision_cases (s := s) c.owner.floorRevision (some r) with ⟨heq, _⟩ | ⟨heq, _⟩
      · exact hs.valid.floor r' (heq ▸ hr')
      · rw [heq] at hr'
        exact Option.some.inj hr' ▸ hw
    · exact Option.some.inj hr' ▸ hw
  idle hf := by cases hf
  floor := left_atMost_max _ _

theorem ownerTransaction_eq {db : Database} (hs : Sound s applied (db.records s))
    (repairCorrupt : Bool) (update : Records → Updated) :
    ownerTransaction s db repairCorrupt update = ((update (db.records s)).answer,
      if (update (db.records s)).changed then
        ⟨(update (db.records s)).records.drafts, some (update (db.records s)).records.owner⟩
      else db) := by
  unfold ownerTransaction
  rw [admitted_eq hs.valid hs.size]

theorem Settles.transaction {db : Database} {w : Write} {repairCorrupt : Bool}
    {update : Records → Updated} (hs : Sound s applied (db.records s))
    (h : Settles s applied w (db.records s) (update (db.records s))) :
    Sound s (applied ++
        if (ownerTransaction s db repairCorrupt update).1.isApplied then [w] else [])
      ((ownerTransaction s db repairCorrupt update).2.records s) ∧
    AtMost s (db.records s).owner.floorRevision
      ((ownerTransaction s db repairCorrupt update).2.records s).owner.floorRevision := by
  rw [ownerTransaction_eq hs]
  by_cases hchanged : (update (db.records s)).changed = true
  · simp only [if_pos hchanged]
    exact ⟨h.sound, h.floor⟩
  · simp only [if_neg hchanged]
    rw [h.idle (by simpa using hchanged), if_neg Bool.false_ne_true, List.append_nil]
    exact ⟨hs, AtMost.refl _⟩

end

/-! ## The newest write -/

section

variable {c : Records} {applied : List Write} {chatId text : String} {r : DraftRevision}
  {now : Reading}

theorem atTime_le_of_older {a b : DraftRevision} (h : Older s a b) : a.atTime ≤ b.atTime := by
  unfold Older compareRevisions at h
  split at h
  · split at h
    · rename_i hlt
      exact hlt.le
    · cases h
  · rename_i heq
    exact (not_not.mp heq).le

theorem not_atMost_of_source {o : Option DraftRevision}
    (h : ∀ r', o = some r' → Older s r' r) : ¬ AtMost s (some r) o := by
  cases o with
  | none => exact Bool.false_ne_true
  | some r' => exact not_atMost_of_older (h r' rfl)

theorem Remembers.older_of_has (hr : Remembers s applied c)
    (hnew : ∀ a ∈ applied, Older s a.revision r) {r' : DraftRevision} (h : c.Has r') :
    Older s r' r := by
  obtain ⟨a, ha, rfl⟩ := hr.origin r' h
  exact hnew a ha

theorem Remembers.not_stale (hr : Remembers s applied c)
    (hnew : ∀ a ∈ applied, Older s a.revision r) : c.isStale s r = false := by
  have hclear : ¬ AtMost s (some r) c.owner.clearRevision := by
    refine not_atMost_of_source fun r' hr' => ?_
    obtain ⟨a, ha, rfl⟩ := hr.originClear r' hr'
    exact hnew a ha
  have hfloor : ¬ AtMost s (some r) c.owner.floorRevision := by
    refine not_atMost_of_source fun r' hr' => ?_
    obtain ⟨a, ha, rfl⟩ := hr.originFloor r' hr'
    exact hnew a ha
  unfold Records.isStale
  rw [Bool.or_eq_false_iff]
  exact ⟨Bool.eq_false_iff.mpr hclear, Bool.eq_false_iff.mpr hfloor⟩

theorem Remembers.not_prior (chatId : String) (hr : Remembers s applied c)
    (hnew : ∀ a ∈ applied, Older s a.revision r) :
    (compareDraftRevision s (some r) (c.priorRevision s chatId)).isLE = false := by
  refine Bool.eq_false_iff.mpr (not_atMost_of_source fun r' hr' => ?_)
  unfold Records.priorRevision at hr'
  rcases maxRevision_cases (s := s) ((c.drafts.get? chatId).map DraftRecord.revision)
    (c.owner.chatRevisions.get? chatId) with ⟨heq, _⟩ | ⟨heq, _⟩
  · rw [heq] at hr'
    obtain ⟨record, hget, rfl⟩ := Option.map_eq_some_iff.mp hr'
    exact hr.older_of_has hnew (.inl ⟨chatId, record, hget, rfl⟩)
  · rw [heq] at hr'
    exact hr.older_of_has hnew (.inr ⟨chatId, hr'⟩)

theorem size_withDraft_le (text : String) : (c.withDraft s chatId text r).size ≤ c.size + 1 := by
  have hset := c.drafts.size_set_le chatId (draftRecord s chatId text r)
  have herase := c.owner.chatRevisions.size_erase_le chatId
  change (c.drafts.set chatId _).size + (c.owner.chatRevisions.erase chatId).size ≤
    c.drafts.size + c.owner.chatRevisions.size + 1
  omega

theorem saveDraft_newest (chatId text : String) (r : DraftRevision) (hs : Sound s applied c)
    (hnew : ∀ a ∈ applied, Older s a.revision r) (htime : isExpired s now r.atTime = false) :
    (saveDraft s now c chatId text r).answer = .saved r ∧
      (saveDraft s now c chatId text r).changed = true ∧
        (saveDraft s now c chatId text r).records.drafts.get? chatId =
          some (draftRecord s chatId text r) := by
  have hpruned := (forgets_pruneExpired c now).sound hs
  have hstale := hpruned.remembers.not_stale hnew
  have hprior := Remembers.not_prior chatId hpruned.remembers hnew
  have heq : saveDraft s now c chatId text r = ⟨.saved r, true,
      enforceRecordLimit s ((pruneExpired s c now).withDraft s chatId text r)⟩ := by
    unfold saveDraft
    simp only
    rw [htime, hstale, if_neg (by decide), hprior, if_neg (by decide)]
    rfl
  rw [heq]
  refine ⟨rfl, rfl, get?_enforceRecordLimit ?_ ?_ ?_ ?_⟩
  · rw [get?_withDraft, if_pos rfl]
  · exact (size_withDraft_le text).trans (Nat.add_le_add_right hpruned.size 1)
  · intro k' record' hne hk' hearlier
    rw [get?_withDraft, if_neg hne] at hk'
    have holder := hpruned.remembers.older_of_has hnew (.inl ⟨k', record', hk', rfl⟩)
    have hle := atTime_le_of_older holder
    have hstamp := hpruned.remembers.stamped k' record' hk'
    rcases hearlier with hlt | ⟨_, hle'⟩
    · change r.atTime < record'.savedAt at hlt
      rw [hstamp] at hlt
      exact absurd hle (not_le.mpr hlt)
    · exact not_atMost_of_older holder hle'
  · intro k' r' hk'
    rw [get?_withDraft_revisions] at hk'
    split at hk'
    · cases hk'
    · exact atTime_le_of_older (hpruned.remembers.older_of_has hnew (.inr ⟨k', hk'⟩))

theorem removeDraft_newest (now : Reading) (chatId : String) (expectedText : Option String)
    (expectedRevision : Option DraftRevision) (r : DraftRevision) (hs : Sound s applied c)
    (hnew : ∀ a ∈ applied, Older s a.revision r) :
    ∃ took, (removeDraft s now c chatId expectedText expectedRevision r).answer = .removed took ∧
      (expectedText = none → expectedRevision = none → took = true) ∧
      (took = true → (removeDraft s now c chatId expectedText expectedRevision r).changed = true ∧
        (removeDraft s now c chatId expectedText expectedRevision r).records.drafts.get? chatId =
          none) := by
  have hpruned := (forgets_pruneExpired c now).sound hs
  have hstale := hpruned.remembers.not_stale hnew
  have hprior := Remembers.not_prior chatId hpruned.remembers hnew
  have heq : removeDraft s now c chatId expectedText expectedRevision r =
      if isUnexpected s ((pruneExpired s c now).drafts.get? chatId) expectedText expectedRevision
      then ⟨.removed false, hasExpired s c now, pruneExpired s c now⟩
      else ⟨.removed true, true,
        enforceRecordLimit s ((pruneExpired s c now).withTombstone chatId r)⟩ := by
    unfold removeDraft
    simp only
    rw [hstale, if_neg Bool.false_ne_true, hprior, if_neg Bool.false_ne_true]
    rfl
  rw [heq]
  by_cases hun : isUnexpected s ((pruneExpired s c now).drafts.get? chatId) expectedText
      expectedRevision = true
  · rw [if_pos hun]
    refine ⟨false, rfl, fun ht hr => ?_, fun h => by cases h⟩
    rw [ht, hr] at hun
    cases hun
  rw [if_neg hun]
  refine ⟨true, rfl, fun _ _ => rfl, fun _ => ⟨rfl, ?_⟩⟩
  obtain ⟨hforgets, _⟩ := forgets_enforceRecordLimit (s := s)
    ((pruneExpired s c now).withTombstone chatId r)
  refine Option.eq_none_iff_forall_not_mem.mpr fun record hk => ?_
  have hget := hforgets.drafts chatId record hk
  rw [get?_withTombstone, if_pos rfl] at hget
  cases hget

theorem restoreDraft_some {record : DraftRecord} (hk : c.drafts.get? chatId = some record)
    (hstate : record.state = "draft") (hfresh : isExpired s now record.savedAt = false) :
    (restoreDraft s now c chatId).answer = .restored (some record.text) := by
  unfold restoreDraft
  simp only
  rw [get?_pruneExpired hk hfresh, Option.bind_some, if_pos hstate]

theorem restoreDraft_none (hk : c.drafts.get? chatId = none) :
    (restoreDraft s now c chatId).answer = .restored none := by
  have hnone : (pruneExpired s c now).drafts.get? chatId = none := by
    refine Option.eq_none_iff_forall_not_mem.mpr fun record hget => ?_
    have h := (forgets_pruneExpired c now).drafts chatId record hget
    rw [hk] at h
    cases h
  unfold restoreDraft
  simp only
  rw [hnone, Option.bind_none]

end

/-- The text of a call has not passed its retention. -/
def Write.isFresh (s : RecoverySettings) (now : Reading) : Write → Bool
  | .save _ _ r => !isExpired s now r.atTime
  | _ => true

/-- A call that is newer than all before takes effect, and is what is restored then. -/
def Accepted (s : RecoverySettings) (db : Database) (now : Reading) : Write → Prop
  | .save chatId text r =>
    let result := (Write.save chatId text r).commit s db now
    result.1 = .saved r ∧ ∀ later, (Write.save chatId text r).isFresh s later = true →
      (restore s result.2 later chatId).1 = .restored (some text)
  | .remove chatId expectedText expectedRevision r =>
    let result := (Write.remove chatId expectedText expectedRevision r).commit s db now
    ∃ took, result.1 = .removed took ∧
      (expectedText = none → expectedRevision = none → took = true) ∧
      (took = true → ∀ later, (restore s result.2 later chatId).1 = .restored none)
  | .clear r =>
    let result := (Write.clear r).commit s db now
    result.1 = .cleared ∧ ∀ later chatId, (restore s result.2 later chatId).1 = .restored none

theorem restore_eq (hs : Sound s applied (db.records s)) (now : Reading) (chatId : String) :
    (restore s db now chatId).1 = (restoreDraft s now (db.records s) chatId).answer := by
  unfold restore
  rw [ownerTransaction_eq hs]

theorem ownerTransaction_changed {repairCorrupt : Bool}
    {update : Records → Updated} (hs : Sound s applied (db.records s))
    (hchanged : (update (db.records s)).changed = true) :
    ownerTransaction s db repairCorrupt update = ((update (db.records s)).answer,
      ⟨(update (db.records s)).records.drafts, some (update (db.records s)).records.owner⟩) := by
  rw [ownerTransaction_eq hs, if_pos hchanged]

theorem Sound.accepts {w : Write} {now : Reading}
    (hs : Sound s applied (db.records s)) (hw : w.Checked s) (hfresh : w.isFresh s now = true)
    (hnew : ∀ a ∈ applied, Older s a.revision w.revision) : Accepted s db now w := by
  cases w with
  | save chatId text r =>
    have htime : isExpired s now r.atTime = false := (Bool.not_eq_true' _).mp hfresh
    obtain ⟨hanswer, hchanged, hget⟩ := saveDraft_newest chatId text r hs hnew htime
    have hcommit : (Write.save chatId text r).commit s db now =
        ((saveDraft s now (db.records s) chatId text r).answer,
          ⟨(saveDraft s now (db.records s) chatId text r).records.drafts,
            some (saveDraft s now (db.records s) chatId text r).records.owner⟩) :=
      ownerTransaction_changed hs hchanged
    have hsound : Sound s _ (((Write.save chatId text r).commit s db now).2.records s) :=
      ((settles_saveDraft now hs hw).transaction hs).1
    refine ⟨by rw [hcommit, hanswer], fun later hlater => ?_⟩
    rw [restore_eq hsound]
    rw [hcommit]
    exact restoreDraft_some hget rfl ((Bool.not_eq_true' _).mp hlater)
  | remove chatId expectedText expectedRevision r =>
    obtain ⟨took, hanswer, hexpected, htook⟩ :=
      removeDraft_newest now chatId expectedText expectedRevision r hs hnew
    have hsound : Sound s _ (((Write.remove chatId expectedText expectedRevision r).commit s db
        now).2.records s) :=
      ((settles_removeDraft now hs hw).transaction hs).1
    refine ⟨took, ?_, hexpected, fun ht later => ?_⟩
    · change (ownerTransaction s db false fun c =>
        removeDraft s now c chatId expectedText expectedRevision r).1 = _
      rw [ownerTransaction_eq hs]
      exact hanswer
    obtain ⟨hchanged, hget⟩ := htook ht
    have hcommit : (Write.remove chatId expectedText expectedRevision r).commit s db now =
        ((removeDraft s now (db.records s) chatId expectedText expectedRevision r).answer,
          ⟨(removeDraft s now (db.records s) chatId expectedText expectedRevision
            r).records.drafts, some (removeDraft s now (db.records s) chatId expectedText
              expectedRevision r).records.owner⟩) :=
      ownerTransaction_changed hs hchanged
    rw [restore_eq hsound]
    refine restoreDraft_none ?_
    rw [hcommit]
    exact hget
  | clear r =>
    have hlate : ∀ r', (db.records s).Has r' → AtMost s (some r') (some r) := by
      intro r' hr'
      have holder := hs.remembers.older_of_has hnew hr'
      exact AtMost.of_not (not_atMost_of_older holder)
    have hcommit : (Write.clear r).commit s db now =
        (.cleared, ⟨.empty, some (clearAll s (db.records s) r).records.owner⟩) :=
      ownerTransaction_eq hs true fun c => clearAll s c r
    have hsound : Sound s _ (((Write.clear r).commit s db now).2.records s) :=
      ((settles_clearAll hs hw hlate).transaction hs).1
    refine ⟨by rw [hcommit], fun later chatId => ?_⟩
    rw [restore_eq hsound]
    refine restoreDraft_none ?_
    rw [hcommit]
    rfl

/-! ## Runs -/

def Records.held (c : Records) : List DraftRevision :=
  c.drafts.values.map DraftRecord.revision ++ c.owner.chatRevisions.values

theorem Records.mem_held {c : Records} {r : DraftRevision} (h : c.Has r) : r ∈ c.held := by
  rcases h with ⟨k, record, hk, rfl⟩ | ⟨k, hk⟩
  · exact List.mem_append_left _ (List.mem_map_of_mem (Dict.mem_values_of_get? hk))
  · exact List.mem_append_right _ (Dict.mem_values_of_get? hk)

def isTimely (s : RecoverySettings) (w : World) : Step → Bool
  | .commit i now =>
    match w.waiting[i]? with
    | some (.clear r) =>
      (w.db.records s).held.all fun r' => (compareRevisions s r' r).isLE
    | some write => write.isFresh s now
    | none => true
  | .request i _ _ => w.tabs[i]?.all fun tab => tab.sequence < maxSafeInteger
  | _ => true

structure LastWriterWins (s : RecoverySettings) (w : World) : Prop where
  /-- No text is older than a write that took effect on its chat. -/
  current : ∀ k record, w.db.drafts.get? k = some record → ∀ a ∈ w.applied, a.Concerns k →
    ¬ Older s record.revision a.revision
  accepts : ∀ a ∈ w.waiting, ∀ now, a.isFresh s now = true →
    (∀ b ∈ w.applied, Older s b.revision a.revision) → Accepted s w.db now a
  floor : ∀ step w', w.next s step = some w' → AtMost s (w.db.records s).owner.floorRevision
    (w'.db.records s).owner.floorRevision
  limit : (w.db.records s).size ≤ s.maxRecords
  admits : ∀ repairCorrupt, admitted s w.db repairCorrupt = some (w.db.records s)

structure Guarded (s : RecoverySettings) (w : World) : Prop where
  sound : Sound s w.applied (w.db.records s)
  waiting : ∀ a ∈ w.waiting, a.Checked s

theorem guarded_initial : Guarded s .initial where
  sound :=
    { valid :=
        { version := rfl
          ownerKey := rfl
          drafts := fun k record hk => by cases hk
          revisions := fun k r hk => by cases hk
          floor := fun r hr => by cases hr
          clear := fun r hr => by cases hr }
      size := Nat.zero_le _
      remembers :=
        { origin := fun r hr => by
            rcases hr with ⟨k, record, hk, _⟩ | ⟨k, hk⟩
            · cases hk
            · cases hk
          originFloor := fun r hr => by cases hr
          originClear := fun r hr => by cases hr
          held := fun a ha => by cases ha
          cleared := fun a ha => by cases ha
          current := fun k record hk => by cases hk
          stamped := fun k record hk => by cases hk } }
  waiting a ha := by cases ha

theorem Tab.request_checked {tab : Tab} {now : Reading} {call : Request} {w : Write}
    (hseq : tab.sequence < maxSafeInteger) (h : tab.request s now call = .ok w) :
    w.Checked s := by
  have hrev : validDraftRevision (tab.nextRevision now) = true := by
    unfold validDraftRevision Tab.nextRevision
    rw [Bool.and_eq_true, Bool.and_eq_true]
    exact ⟨⟨decide_eq_true now.property, tab.writerId.property⟩, decide_eq_true hseq⟩
  cases call with
  | saveDraft chatId text =>
    simp only [Tab.request] at h
    split at h
    · cases h
    split at h
    · cases h
    rename_i hchat
    split at h
    · cases h
    rename_i hlong
    split at h
    · cases h
      exact ⟨by simpa using hchat, hrev⟩
    · cases h
      exact ⟨by simpa using hchat, not_lt.mp hlong, hrev⟩
  | removeDraft chatId expectedText expectedRevision =>
    simp only [Tab.request] at h
    split at h
    · cases h
    rename_i hchat
    cases h
    exact ⟨by simpa using hchat, hrev⟩
  | clearAll =>
    cases h
    exact hrev

theorem sound_restore (now : Reading) (chatId : String) (hs : Sound s applied (db.records s)) :
    Sound s applied ((restore s db now chatId).2.records s) ∧
      AtMost s (db.records s).owner.floorRevision
        ((restore s db now chatId).2.records s).owner.floorRevision := by
  unfold restore
  rw [ownerTransaction_eq hs]
  by_cases hchanged : (restoreDraft s now (db.records s) chatId).changed = true
  · simp only [if_pos hchanged]
    exact ⟨(forgets_pruneExpired _ now).sound hs, (forgets_pruneExpired _ now).floor⟩
  · simp only [if_neg hchanged]
    exact ⟨hs, AtMost.refl _⟩

theorem sound_commit {w : Write} (now : Reading)
    (hs : Sound s applied (db.records s)) (hw : w.Checked s)
    (hlate : ∀ r, w = .clear r → ∀ r', (db.records s).Has r' → AtMost s (some r') (some r)) :
    Sound s (applied ++ if (w.commit s db now).1.isApplied then [w] else [])
      ((w.commit s db now).2.records s) := by
  cases w with
  | save chatId text r => exact ((settles_saveDraft now hs hw).transaction hs).1
  | remove chatId expectedText expectedRevision r =>
    exact ((settles_removeDraft now hs hw).transaction hs).1
  | clear r => exact ((settles_clearAll hs hw (hlate r rfl)).transaction hs).1

theorem floor_commit {w : Write} (now : Reading)
    (hs : Sound s applied (db.records s)) (hw : w.Checked s) :
    AtMost s (db.records s).owner.floorRevision
      ((w.commit s db now).2.records s).owner.floorRevision := by
  cases w with
  | save chatId text r => exact ((settles_saveDraft now hs hw).transaction hs).2
  | remove chatId expectedText expectedRevision r =>
    exact ((settles_removeDraft now hs hw).transaction hs).2
  | clear r =>
    have hcommit := ownerTransaction_eq hs true fun c => clearAll s c r
    change AtMost s _ ((ownerTransaction s db true fun c =>
      clearAll s c r).2.records s).owner.floorRevision
    rw [hcommit]
    exact left_atMost_max _ _

theorem mem_of_mem_eraseIdx {w : World} {i : Nat} (h : ∀ a ∈ w.waiting, a.Checked s) :
    ∀ a ∈ w.waiting.eraseIdx i, a.Checked s := fun a ha => h a (List.mem_of_mem_eraseIdx ha)

theorem Guarded.next {w w' : World} {step : Step} (h : Guarded s w)
    (hc : isTimely s w step = true) (hnext : w.next s step = some w') : Guarded s w' := by
  cases step with
  | openTab writerId enabled =>
    cases hnext
    exact ⟨h.sound, h.waiting⟩
  | enable i enabled =>
    obtain ⟨tab, _, hnext⟩ := Option.bind_eq_some_iff.mp hnext
    cases hnext
    exact ⟨h.sound, h.waiting⟩
  | request i now call =>
    obtain ⟨tab, htab, hnext⟩ := Option.bind_eq_some_iff.mp hnext
    have hseq : tab.sequence < maxSafeInteger := by
      simp only [isTimely, htab, Option.all_some] at hc
      exact of_decide_eq_true hc
    cases hrequest : tab.request s now call with
    | error reason =>
      rw [hrequest] at hnext
      cases hnext
      exact h
    | ok write =>
      rw [hrequest] at hnext
      cases hnext
      refine ⟨h.sound, fun a ha => ?_⟩
      rcases List.mem_append.mp ha with ha | ha
      · exact h.waiting a ha
      · rw [List.mem_singleton.mp ha]
        exact Tab.request_checked hseq hrequest
  | commit i now =>
    obtain ⟨write, hwrite, hnext⟩ := Option.bind_eq_some_iff.mp hnext
    cases hnext
    refine ⟨sound_commit now h.sound (h.waiting write (List.mem_of_getElem? hwrite)) ?_,
      mem_of_mem_eraseIdx h.waiting⟩
    intro r hr r' hhas
    simp only [isTimely, hwrite, hr, List.all_eq_true] at hc
    exact hc r' (Records.mem_held hhas)
  | abort i =>
    obtain ⟨write, _, hnext⟩ := Option.bind_eq_some_iff.mp hnext
    cases hnext
    exact ⟨h.sound, mem_of_mem_eraseIdx h.waiting⟩
  | restore i now chatId =>
    obtain ⟨tab, _, hnext⟩ := Option.bind_eq_some_iff.mp hnext
    split at hnext
    · cases hnext
      exact ⟨(sound_restore now chatId h.sound).1, h.waiting⟩
    · cases hnext
      exact h

theorem Guarded.floor {w w' : World} {step : Step} (h : Guarded s w)
    (hnext : w.next s step = some w') : AtMost s (w.db.records s).owner.floorRevision
      (w'.db.records s).owner.floorRevision := by
  cases step with
  | openTab writerId enabled =>
    cases hnext
    exact AtMost.refl _
  | enable i enabled =>
    obtain ⟨tab, _, hnext⟩ := Option.bind_eq_some_iff.mp hnext
    cases hnext
    exact AtMost.refl _
  | request i now call =>
    obtain ⟨tab, _, hnext⟩ := Option.bind_eq_some_iff.mp hnext
    split at hnext
    · cases hnext
      exact AtMost.refl _
    · cases hnext
      exact AtMost.refl _
  | commit i now =>
    obtain ⟨write, hwrite, hnext⟩ := Option.bind_eq_some_iff.mp hnext
    cases hnext
    exact floor_commit now h.sound (h.waiting write (List.mem_of_getElem? hwrite))
  | abort i =>
    obtain ⟨write, _, hnext⟩ := Option.bind_eq_some_iff.mp hnext
    cases hnext
    exact AtMost.refl _
  | restore i now chatId =>
    obtain ⟨tab, _, hnext⟩ := Option.bind_eq_some_iff.mp hnext
    split at hnext
    · cases hnext
      exact (sound_restore now chatId h.sound).2
    · cases hnext
      exact AtMost.refl _

theorem Guarded.lastWriterWins {w : World} (h : Guarded s w) : LastWriterWins s w where
  current k record hk a ha hc :=
    (atMost_iff_not_older _ _).mp (h.sound.remembers.current k record hk a ha hc)
  accepts a ha _ hfresh hnew := h.sound.accepts (h.waiting a ha) hfresh hnew
  floor _ _ hnext := h.floor hnext
  limit := h.sound.size
  admits := admitted_eq h.sound.valid h.sound.size

/-- In every run whose clears and saves are timely the last writer wins in every state. -/
theorem World.run_lastWriterWins (s : RecoverySettings) (steps : List Step) (w : World)
    (hc : Runs.Meets (World.next s) (fun w step => isTimely s w step = true) .initial steps)
    (h : Runs.exec (World.next s) .initial steps = some w) : LastWriterWins s w :=
  (Runs.invariant_of_meets (fun _ _ _ hw hc hnext => Guarded.next hw hc hnext)
    guarded_initial hc h).lastWriterWins

def panelSettings : RecoverySettings where
  ownerKey := "codex-bridge:preferences:user"
  isOwnerKey_ownerKey := by decide +kernel
  maxDraftChars := 8192
  maxRecords := 20
  maxRecords_pos := by decide
  retentionMs := 604800000
  minus a b := a - b
  localeCompare := compare
  consistent := inferInstance

/-- Three tabs: one clears at 5, one saves at 7, one saves at 10. The last save is stored
first, then the clear, then the other save. -/
def delayedClear : List Step :=
  [.openTab ⟨"a", by decide +kernel⟩ true, .openTab ⟨"b", by decide +kernel⟩ true,
    .openTab ⟨"c", by decide +kernel⟩ true,
    .request 0 ⟨5, by decide +kernel⟩ .clearAll,
    .request 1 ⟨7, by decide +kernel⟩ (.saveDraft "thread" "earlier"),
    .request 2 ⟨10, by decide +kernel⟩ (.saveDraft "thread" "later"),
    .commit 2 ⟨11, by decide +kernel⟩, .commit 0 ⟨12, by decide +kernel⟩,
    .commit 0 ⟨13, by decide +kernel⟩]

def promptClear : List Step :=
  delayedClear.take 6 ++
    [.commit 0 ⟨11, by decide +kernel⟩, .commit 1 ⟨12, by decide +kernel⟩,
      .commit 0 ⟨13, by decide +kernel⟩]

theorem run_promptClear_lastWriterWins :
    (Runs.exec (World.next panelSettings) .initial promptClear).isSome = true ∧
      ∀ w, Runs.exec (World.next panelSettings) .initial promptClear = some w →
        LastWriterWins panelSettings w :=
  ⟨by decide +kernel, fun w h =>
    World.run_lastWriterWins panelSettings promptClear w (by decide +kernel) h⟩

/-- A late clear forgets the save that came after it. -/
theorem delayedClear_restores_earlier :
    (Runs.exec (World.next panelSettings) .initial delayedClear).isSome = true ∧
      ∀ w, Runs.exec (World.next panelSettings) .initial delayedClear = some w →
        ¬ LastWriterWins panelSettings w := by
  refine ⟨by decide +kernel, fun w h hwins => ?_⟩
  have hstale : ((Runs.exec (World.next panelSettings) .initial delayedClear).all fun w =>
      (w.db.drafts.get? "thread").any fun record => w.applied.any fun a =>
        decide (a.chat? = some "thread") &&
          decide (Older panelSettings record.revision a.revision)) = true := by
    decide +kernel
  rw [h, Option.all_some, Option.any_eq_true] at hstale
  obtain ⟨record, hrecord, hany⟩ := hstale
  obtain ⟨a, ha, holder⟩ := List.any_eq_true.mp hany
  rw [Bool.and_eq_true, decide_eq_true_eq, decide_eq_true_eq] at holder
  exact hwins.current "thread" record hrecord a ha (.inr holder.1) holder.2

end CodexBridge.Panel
