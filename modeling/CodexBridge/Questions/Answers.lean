import CodexBridge.Questions.Frames

/-! # One reply for each question

An entry of the ledger remembers that a reply was attempted. As long as no refresh makes a new
entry for a question to which a reply was sent, no second reply is sent to it.
-/

namespace CodexBridge.Questions

open Effect

/-! ## What a refresh creates -/

/-- What is left once the oldest is dropped where there are too many. -/
def capped {α : Type} (xs : List α) : List α :=
  if maxInteractions < xs.length then xs.tail else xs

section

variable (host : Host)

/-- The pending questions that get a new entry, where the ledger has entries with these ids. -/
def created : List String → List (String × Json) → List (String × Json)
  | _, [] => []
  | ids, p :: rest =>
    if (questionFingerprint host p.2).isNone then created ids rest
    else if p.1 ∈ ids then created (capped ids) rest
    else p :: created (capped (ids ++ [p.1])) rest

def answered (answers : List Answer) : List (String × String) :=
  answers.map fun a => (a.interactionId, a.questionId)

/-- No question to which a reply was sent gets a new entry. -/
def Spared (s : State) (pending : List (String × Json)) : Prop :=
  ∀ p ∈ created host ((keptEntries host pending s.entries).map (·.interactionId))
      (pending.take maxInteractions),
    (p.1, questionIdOf host p.2) ∉ answered s.answers

instance (s : State) (pending : List (String × Json)) : Decidable (Spared host s pending) :=
  inferInstanceAs (Decidable (∀ p ∈ _, _))

def SparesAnswered (s : State) (step : Step) : Prop :=
  Compares host (fun t input => Spared host t input.2) s step

instance (s : State) (step : Step) : Decidable (SparesAnswered host s step) :=
  inferInstanceAs (Decidable (Compares host _ s step))

end

theorem capped_map {α β : Type} (f : α → β) (xs : List α) :
    (capped xs).map f = capped (xs.map f) := by
  unfold capped
  rw [List.length_map]
  split
  · exact List.map_tail
  · rfl

theorem mem_of_mem_capped {α : Type} {x : α} {xs : List α} (h : x ∈ capped xs) : x ∈ xs := by
  unfold capped at h
  split at h
  · exact List.mem_of_mem_tail h
  · exact h

/-- What of an entry decides whether a reply may be sent. -/
structure Head where
  interactionId : String
  questionId : String
  attempted : Bool
  openChatOnly : Bool

def LedgerEntry.head (e : LedgerEntry) : Head where
  interactionId := e.interactionId
  questionId := e.questionId
  attempted := e.attempted
  openChatOnly := e.openChatOnly

def Sealed (answers : List Answer) (heads : List Head) : Prop :=
  ∀ x ∈ heads, (x.interactionId, x.questionId) ∈ answered answers → x.attempted = true

/-- The ledger and its saved copy know of every reply that was sent. -/
structure Guarded (host : Host) (s : State) : Prop where
  ids : ((s.entries.map LedgerEntry.head).map (·.interactionId)).Nodup
  entries : Sealed s.answers (s.entries.map LedgerEntry.head)
  stored : ∀ es, normaliseLedger host.expiry s.stored = some es →
    Sealed s.answers (es.map LedgerEntry.head)
  once : (answered s.answers).Nodup

section

variable {host : Host}

variable {answers : List Answer}

theorem Sealed.sub {hs hs' : List Head} (h : Sealed answers hs)
    (hsub : ∀ x ∈ hs', x ∈ hs) : Sealed answers hs' :=
  fun x hx => h x (hsub x hx)

variable {e : LedgerEntry}

theorem mem_lastEntries {entries : List LedgerEntry} (h : e ∈ lastEntries entries) : e ∈ entries :=
  List.mem_of_mem_drop h

theorem Sealed.saved {entries es : List LedgerEntry}
    (h : Sealed answers (entries.map LedgerEntry.head))
    (hread : normaliseLedger host.expiry (ledgerValue (lastEntries entries)) = some es) :
    Sealed answers (es.map LedgerEntry.head) := by
  rw [normalise_ledgerValue_eq hread]
  apply h.sub
  intro x hx
  obtain ⟨e, he, rfl⟩ := List.mem_map.mp hx
  exact List.mem_map_of_mem (mem_lastEntries he)

theorem Guarded.of_same {s t : State} (h : Guarded host s)
    (hheads : t.entries.map LedgerEntry.head = s.entries.map LedgerEntry.head)
    (hanswers : t.answers = s.answers)
    (hstored : t.stored = s.stored ∨ t.stored = ledgerValue (lastEntries s.entries)) :
    Guarded host t where
  ids := by
    rw [hheads]
    exact h.ids
  entries := by
    rw [hheads, hanswers]
    exact h.entries
  stored := by
    intro es hread
    rw [hanswers]
    cases hstored with
    | inl hold =>
      rw [hold] at hread
      exact h.stored es hread
    | inr hnew =>
      rw [hnew] at hread
      exact h.entries.saved hread
  once := by
    rw [hanswers]
    exact h.once

theorem guarded_lasting : Lasting (Guarded host) where
  after := fun _ _ hs => hs.of_same rfl rfl (.inl rfl)
  saved := fun _ _ _ hs hstored => hs.of_same rfl rfl hstored

theorem Guarded.drop {s t : State} (h : Guarded host s)
    (hsub : (t.entries.map LedgerEntry.head).Sublist (s.entries.map LedgerEntry.head))
    (hanswers : t.answers = s.answers) (hstored : t.stored = s.stored) : Guarded host t where
  ids := h.ids.sublist (hsub.map _)
  entries := by
    rw [hanswers]
    exact h.entries.sub fun x hx => hsub.subset hx
  stored := by
    rw [hanswers, hstored]
    exact h.stored
  once := by
    rw [hanswers]
    exact h.once

/-- The attempts, and what was sent, are these. -/
def Framed (host : Host) (hs : List Head) (answers : List Answer) (s : State) : Prop :=
  Guarded host s ∧ s.entries.map LedgerEntry.head = hs ∧ s.answers = answers

theorem framed_lasting (hs : List Head) (answers : List Answer) :
    Lasting (Framed host hs answers) :=
  guarded_lasting.and_ledger fun entries sent =>
    entries.map LedgerEntry.head = hs ∧ sent = answers

variable {hs : List Head}

theorem framed_setEntry {id : String}
    {f : LedgerEntry → LedgerEntry} (hf : ∀ e, (f e).head = e.head) :
    Keeps (Framed host hs answers) (setEntry id f) := by
  apply Keeps.modify
  intro s hs
  have hheads : (s.entries.map fun e => if e.interactionId = id then f e else e).map
      LedgerEntry.head = s.entries.map LedgerEntry.head := by
    rw [List.map_map]
    apply List.map_congr_left
    intro e _
    show (if e.interactionId = id then f e else e).head = e.head
    split
    · exact hf e
    · rfl
  exact ⟨hs.1.of_same hheads rfl (.inl rfl), hheads.trans hs.2.1, hs.2.2⟩

theorem framed_editable (hs : List Head) (answers : List Answer) (id : String) :
    Editable (Framed host hs answers) id where
  toLasting := framed_lasting hs answers
  persistent := fun _ _ => framed_setEntry fun _ => rfl
  attempted := fun _ _ _ => framed_setEntry fun _ => rfl
  removed := fun _ => framed_setEntry fun _ => rfl

theorem framed_addRecipient (hs : List Head) (answers : List Answer) (id : String)
    (question : Option Json) (preview : Bool) (r : Recipient) :
    Keeps (Framed host hs answers) (addRecipient host id question preview r) := by
  have hlasting : Editable (Framed host hs answers) id := framed_editable hs answers id
  unfold addRecipient
  refine Keeps.bind Keeps.read fun drawn => ?_
  dsimp only
  refine Keeps.bind (Keeps.modify fun s hs => ?_) fun _ => ?_
  · exact ⟨hs.1.of_same rfl rfl (.inl rfl), hs.2⟩
  refine Keeps.bind (framed_setEntry fun _ => rfl) fun _ => ?_
  refine Keeps.bind hlasting.persist fun _ => ?_
  refine Keeps.bind Keeps.read fun closed => ?_
  split
  · exact hlasting.deliverMobile _ _ _
  · exact Keeps.pure

theorem framed_refreshRecipient (hs : List Head) (answers : List Answer) (id : String)
    (question : Option Json) (preview : Bool) (r : Recipient) :
    Keeps (Framed host hs answers) (refreshRecipient host id question preview r) := by
  have hlasting : Editable (Framed host hs answers) id := framed_editable hs answers id
  unfold refreshRecipient
  refine Keeps.bind Keeps.read fun closed => ?_
  split
  · exact Keeps.raise
  refine Keeps.bind Keeps.read fun e => ?_
  split
  · exact framed_addRecipient hs answers id question preview r
  split
  · refine Keeps.bind (hlasting.clearMobile _) fun _ => ?_
    refine Keeps.bind (hlasting.removed _) fun _ => ?_
    exact framed_addRecipient hs answers id question preview r
  · split
    · exact hlasting.deliverMobile _ _ _
    · exact Keeps.pure

theorem framed_evict (hs : List Head) (answers : List Answer) :
    Triple (Framed host hs answers) evict (fun _ => Framed host (capped hs) answers)
      (fun _ => Guarded host) := by
  unfold evict
  apply Triple.bind (Q := fun entries s => Framed host hs answers s ∧ s.entries = entries)
  · exact Triple.read fun s hs => ⟨hs, rfl⟩
  intro entries
  cases entries with
  | nil =>
    apply Triple.pure
    intro s hs
    obtain ⟨⟨hg, hheads, ha⟩, hnil⟩ := hs
    rw [hnil] at hheads
    refine ⟨hg, ?_, ha⟩
    rw [hnil, ← hheads]
    rfl
  | cons oldest rest =>
    dsimp only
    split
    · rename_i hlong
      apply Triple.bind (Q := fun _ => Framed host (capped hs) answers)
      · apply Triple.modify
        intro s hs
        obtain ⟨⟨hg, hheads, ha⟩, hcons⟩ := hs
        rw [hcons] at hheads
        have hcapped : capped hs = rest.map LedgerEntry.head := by
          unfold capped
          rw [← hheads, List.length_map, if_pos hlong]
          rfl
        refine ⟨hg.drop ?_ rfl rfl, hcapped.symm, ha⟩
        rw [hcons]
        exact List.sublist_cons_self _ _
      · intro _
        exact ((framed_lasting _ answers).clearEntry oldest).raises fun _ _ hs => hs.1
    · rename_i hshort
      apply Triple.pure
      intro s hs
      obtain ⟨⟨hg, hheads, ha⟩, hcons⟩ := hs
      refine ⟨hg, ?_, ha⟩
      unfold capped
      rw [← hheads, hcons, List.length_map, if_neg hshort]

/-- The rest of a refresh makes no entry for a question to which a reply was sent. -/
structure Ahead (host : Host) (hs : List Head) (answers : List Answer)
    (pending : List (String × Json)) : Prop where
  spared : ∀ p ∈ created host (hs.map (·.interactionId)) pending,
    (p.1, questionIdOf host p.2) ∉ answered answers
  same : ∀ p ∈ pending, ∀ x ∈ hs, x.interactionId = p.1 →
    x.openChatOnly = (question? host p.2).isNone
  distinct : (pending.map Prod.fst).Nodup

/-- A refresh on its way, with these questions still to do. -/
def Going (host : Host) (pending : List (String × Json)) (s : State) : Prop :=
  Guarded host s ∧ Ahead host (s.entries.map LedgerEntry.head) s.answers pending

variable {p : String × Json} {rest : List (String × Json)}

section

variable {answers : List Answer} (h : Ahead host hs answers (p :: rest))

include h

theorem Ahead.skip (hprint : questionFingerprint host p.2 = none) : Ahead host hs answers rest where
  spared := by
    have hspared := h.spared
    rw [created, hprint, Option.isNone_none, if_pos rfl] at hspared
    exact hspared
  same := fun q hq => h.same q (List.mem_cons_of_mem p hq)
  distinct := (List.nodup_cons.mp h.distinct).2

theorem Ahead.visit {fingerprint : String}
    (hprint : questionFingerprint host p.2 = some fingerprint)
    (hmem : p.1 ∈ hs.map (·.interactionId)) : Ahead host (capped hs) answers rest where
  spared := by
    have hspared := h.spared
    rw [created, hprint, Option.isNone_some, if_neg Bool.false_ne_true, if_pos hmem] at hspared
    rw [capped_map]
    exact hspared
  same := fun q hq x hx => h.same q (List.mem_cons_of_mem p hq) x (mem_of_mem_capped hx)
  distinct := (List.nodup_cons.mp h.distinct).2

theorem Ahead.create {fingerprint : String}
    (hprint : questionFingerprint host p.2 = some fingerprint)
    (hnot : p.1 ∉ hs.map (·.interactionId)) {x : Head} (hx : x.interactionId = p.1) :
    (p.1, questionIdOf host p.2) ∉ answered answers ∧
      Ahead host (capped (hs ++ [x])) answers rest := by
  have hspared := h.spared
  rw [created, hprint, Option.isNone_some, if_neg Bool.false_ne_true, if_neg hnot] at hspared
  refine ⟨hspared p List.mem_cons_self, ?_⟩
  constructor
  · rw [capped_map, List.map_append, List.map_singleton, hx]
    exact fun q hq => hspared q (List.mem_cons_of_mem p hq)
  · intro q hq y hy hid
    cases List.mem_append.mp (mem_of_mem_capped hy) with
    | inl hold => exact h.same q (List.mem_cons_of_mem p hq) y hold hid
    | inr hnew =>
      -- the other pending questions have other ids
      rw [List.mem_singleton.mp hnew, hx] at hid
      have hmem : p.1 ∈ rest.map Prod.fst := hid ▸ List.mem_map_of_mem hq
      exact absurd hmem (List.nodup_cons.mp h.distinct).1
  · exact (List.nodup_cons.mp h.distinct).2

end

variable {s : State}

theorem findEntry_none {id : String} (h : findEntry s id = none) :
    id ∉ (s.entries.map LedgerEntry.head).map (·.interactionId) := by
  intro hmem
  obtain ⟨x, hx, hid⟩ := List.mem_map.mp hmem
  obtain ⟨e, he, rfl⟩ := List.mem_map.mp hx
  have hne := List.find?_eq_none.mp h e he
  exact hne (decide_eq_true hid)

theorem findEntry_some {id : String}
    (h : findEntry s id = some e) : e ∈ s.entries ∧ e.interactionId = id := by
  have hid := List.find?_some h
  exact ⟨List.mem_of_find?_eq_some h, of_decide_eq_true hid⟩

theorem Guarded.create (h : Guarded host s)
    (hid : e.interactionId ∉ (s.entries.map LedgerEntry.head).map (·.interactionId))
    (hnot : (e.interactionId, e.questionId) ∉ answered s.answers) :
    Guarded host { s with entries := s.entries ++ [e] } where
  ids := by
    show (((s.entries ++ [e]).map LedgerEntry.head).map (·.interactionId)).Nodup
    rw [List.map_append, List.map_append]
    exact List.Nodup.append h.ids (List.nodup_singleton _) (List.disjoint_singleton.mpr hid)
  entries := by
    intro x hx hanswered
    rw [List.map_append] at hx
    cases List.mem_append.mp hx with
    | inl hold => exact h.entries x hold hanswered
    | inr hnew =>
      rw [List.map_singleton, List.mem_singleton] at hnew
      subst hnew
      exact absurd hanswered hnot
  stored := h.stored
  once := h.once

theorem ensureEntry_ahead {fingerprint : String}
    (hprint : questionFingerprint host p.2 = some fingerprint) :
    Triple (Going host (p :: rest)) (ensureEntry host p.1 p.2 fingerprint)
      (fun _ s => Guarded host s ∧
        Ahead host (capped (s.entries.map LedgerEntry.head)) s.answers rest)
      (fun _ => Guarded host) := by
  unfold ensureEntry
  apply Triple.bind (Q := fun existing s => Going host (p :: rest) s ∧ findEntry s p.1 = existing)
  · exact Triple.read fun s hs => ⟨hs, rfl⟩
  intro existing
  cases existing with
  | none =>
    apply Triple.modify
    intro s hs
    obtain ⟨⟨hg, hahead⟩, hfind⟩ := hs
    have hnot := findEntry_none hfind
    obtain ⟨hspared, hahead⟩ := hahead.create hprint hnot
      (show (newEntry host p.1 p.2 fingerprint).head.interactionId = p.1 from rfl)
    refine ⟨hg.create hnot hspared, ?_⟩
    show Ahead host (capped ((s.entries ++ [_]).map LedgerEntry.head)) s.answers rest
    rw [List.map_append]
    exact hahead
  | some e =>
    dsimp only
    split
    · apply Triple.pure
      intro s hs
      obtain ⟨⟨hg, hahead⟩, hfind⟩ := hs
      obtain ⟨hmem, hid⟩ := findEntry_some hfind
      refine ⟨hg, hahead.visit hprint ?_⟩
      rw [List.map_map]
      exact List.mem_map.mpr ⟨e, hmem, hid⟩
    · rename_i hother
      intro s hs
      obtain ⟨⟨hg, hahead⟩, hfind⟩ := hs
      obtain ⟨hmem, hid⟩ := findEntry_some hfind
      exact absurd (hahead.same p List.mem_cons_self e.head (List.mem_map_of_mem hmem) hid)
        hother

theorem refreshQuestion_ahead (plan : Plan) (p : String × Json) (rest : List (String × Json)) :
    Triple (Going host (p :: rest)) (refreshQuestion host plan p) (fun _ => Going host rest)
      (fun _ => Guarded host) := by
  unfold refreshQuestion
  apply Triple.bind (Q := fun _ => Going host (p :: rest))
  · exact Triple.read fun _ hs => hs
  intro closed
  split
  · exact Triple.raise fun _ hs => hs.1
  cases hprint : questionFingerprint host p.2 with
  | none => exact Triple.pure fun s hs => ⟨hs.1, hs.2.skip hprint⟩
  | some fingerprint =>
    apply Triple.bind (ensureEntry_ahead hprint)
    intro _ s hs
    -- what follows leaves the attempts alone, up to the loss of the oldest entry
    have hrest : Triple (Framed host (s.entries.map LedgerEntry.head) s.answers)
        (do
          refreshPersistent p.1 plan.persistent
          forEach (plan.wanted.take maxDestinations) fun r =>
            refreshRecipient host p.1 (question? host p.2) plan.preview r
          dropDestinations p.1 plan.wanted
          evict)
        (fun _ => Framed host (capped (s.entries.map LedgerEntry.head)) s.answers)
        (fun _ => Guarded host) := by
      have hedit : Editable (Framed host (s.entries.map LedgerEntry.head) s.answers) p.1 :=
        framed_editable _ _ _
      have hloop : Keeps (Framed host (s.entries.map LedgerEntry.head) s.answers)
          (forEach (plan.wanted.take maxDestinations) fun r =>
            refreshRecipient host p.1 (question? host p.2) plan.preview r) :=
        Keeps.forEach fun r _ => framed_refreshRecipient _ _ p.1 (question? host p.2) _ r
      apply Triple.bind
      · exact Triple.weaken (hedit.refreshPersistent p.1 plan.persistent) (fun _ h => h)
          (fun _ _ h => h) fun _ _ h => h.1
      intro _
      apply Triple.bind
      · exact Triple.weaken hloop (fun _ h => h) (fun _ _ h => h) fun _ _ h => h.1
      intro _
      apply Triple.bind
      · exact Triple.weaken (hedit.dropDestinations plan.wanted) (fun _ h => h)
          (fun _ _ h => h) fun _ _ h => h.1
      intro _
      exact framed_evict _ _
    apply hrest.weaken (fun _ h => h) _ (fun _ _ h => h) s ⟨hs.1, rfl, rfl⟩
    intro _ t ht
    obtain ⟨hg, hheads, ha⟩ := ht
    refine ⟨hg, ?_⟩
    rw [hheads, ha]
    exact hs.2

theorem refreshQuestions_ahead (plan : Plan) (pending : List (String × Json)) :
    Triple (Going host pending) (forEach pending (refreshQuestion host plan))
      (fun _ => Guarded host) (fun _ => Guarded host) := by
  induction pending with
  | nil => exact Triple.pure fun _ hs => hs.1
  | cons p rest ih => exact Triple.bind (refreshQuestion_ahead plan p rest) fun _ => ih

/-- Of different ids, the one of `x` is dropped. -/
theorem filter_ne_append {xs ys : List LedgerEntry} {x : LedgerEntry}
    (h : ((xs ++ x :: ys).map (·.interactionId)).Nodup) :
    (xs ++ x :: ys).filter (·.interactionId ≠ x.interactionId) = xs ++ ys := by
  rw [List.map_append, List.map_cons, List.nodup_append] at h
  obtain ⟨_, hys, hdisjoint⟩ := h
  have hxs : xs.filter (·.interactionId ≠ x.interactionId) = xs := by
    rw [List.filter_eq_self]
    intro y hy
    exact decide_eq_true
      (hdisjoint _ (List.mem_map_of_mem hy) x.interactionId List.mem_cons_self)
  have hrest : ys.filter (·.interactionId ≠ x.interactionId) = ys := by
    rw [List.filter_eq_self]
    intro y hy
    apply decide_eq_true
    intro heq
    exact (List.nodup_cons.mp hys).1 (heq ▸ List.mem_map_of_mem hy)
  rw [List.filter_append, hxs, List.filter_cons_of_neg (by simp), hrest]

def Holding (host : Host) (entries : List LedgerEntry) (answers : List Answer) (s : State) :
    Prop :=
  Guarded host s ∧ s.entries = entries ∧ s.answers = answers

theorem holding_lasting (entries : List LedgerEntry) (answers : List Answer) :
    Lasting (Holding host entries answers) :=
  guarded_lasting.and_ledger fun es sent => es = entries ∧ sent = answers

theorem Guarded.ids_entries (h : Guarded host s) :
    (s.entries.map (·.interactionId)).Nodup := by
  have hids := h.ids
  rw [List.map_map] at hids
  exact hids

theorem dropStale_kept (pending : List (String × Json)) (kept entries : List LedgerEntry)
    (answers : List Answer) :
    Triple (Holding host (kept ++ entries) answers) (dropStale host pending entries)
      (fun _ => Holding host (kept ++ keptEntries host pending entries) answers)
      (fun _ => Guarded host) := by
  unfold dropStale
  induction entries generalizing kept with
  | nil => exact Triple.pure fun _ hs => hs
  | cons e rest ih =>
    by_cases hkeep :
        ((pendingItem pending e.interactionId).any fun item => sameQuestion host e item) = true
    · have hnext : keptEntries host pending (e :: rest) = e :: keptEntries host pending rest :=
        List.filter_cons_of_pos hkeep
      rw [hnext, forEach, if_pos hkeep]
      apply Triple.bind (Q := fun _ => Holding host (kept ++ e :: rest) answers)
      · exact Triple.pure fun _ hs => hs
      intro _
      have hrest := ih (kept ++ [e])
      rw [← List.append_cons, ← List.append_cons] at hrest
      exact hrest
    · have hnext : keptEntries host pending (e :: rest) = keptEntries host pending rest :=
        List.filter_cons_of_neg hkeep
      rw [hnext, forEach, if_neg hkeep]
      apply Triple.bind (Q := fun _ => Holding host (kept ++ rest) answers)
      · apply Triple.bind (Q := fun _ => Holding host (kept ++ e :: rest) answers)
        · exact Triple.weaken ((holding_lasting _ _).clearEntry e) (fun _ hs => hs)
            (fun _ _ hs => hs) fun _ _ hs => hs.1
        intro _
        apply Triple.modify
        intro s hs
        obtain ⟨hg, hentries, ha⟩ := hs
        have hids := hg.ids_entries
        rw [hentries] at hids
        have hfilter := filter_ne_append hids
        refine ⟨hg.drop ?_ rfl rfl, ?_, ha⟩
        · exact List.Sublist.map _ List.filter_sublist
        · rw [← hfilter, ← hentries]
      · intro _
        exact ih kept

theorem pendingItem_of_mem {pending : List (String × Json)}
    (hdistinct : (pending.map Prod.fst).Nodup) (h : p ∈ pending) :
    pendingItem pending p.1 = some p.2 := by
  unfold pendingItem
  induction pending with
  | nil => cases h
  | cons q rest ih =>
    rw [List.map_cons, List.nodup_cons] at hdistinct
    cases List.mem_cons.mp h with
    | inl heq =>
      rw [heq, List.find?_cons_of_pos (by simp)]
      rfl
    | inr hrest =>
      have hne : q.1 ≠ p.1 := fun heq =>
        hdistinct.1 (heq ▸ List.mem_map_of_mem hrest)
      rw [List.find?_cons_of_neg (by simpa using hne)]
      exact ih hdistinct.2 hrest

theorem same_openChatOnly {item : Json} (h : sameQuestion host e item = true) :
    e.openChatOnly = (question? host item).isNone := by
  unfold sameQuestion at h
  simp only [Bool.and_eq_true, decide_eq_true_eq] at h
  have hne := h.1.1.1.1
  cases hq : question? host item with
  | none =>
    rw [hq] at hne
    simpa using hne
  | some question =>
    rw [hq] at hne
    simpa using hne

theorem refreshWith_guarded (hg : Guarded host s) (plan : Plan)
    {pending : List (String × Json)} (hdistinct : (pending.map Prod.fst).Nodup)
    (hspared : Spared host s pending) : Guarded host (refreshWith host plan pending s).2 := by
  have htriple : Triple (Holding host s.entries s.answers) (refreshWith host plan pending)
      (fun _ => Guarded host) (fun _ => Guarded host) := by
    unfold refreshWith
    apply Triple.bind (Q := fun es t => Holding host s.entries s.answers t ∧ es = s.entries)
    · exact Triple.read fun t ht => ⟨ht, ht.2.1⟩
    intro es
    apply Triple.bind
      (Q := fun _ => Holding host (keptEntries host pending s.entries) s.answers)
    · intro t ht
      rw [ht.2]
      exact dropStale_kept pending [] s.entries s.answers t ht.1
    intro _
    apply Triple.bind (Q := fun _ => Guarded host)
    · apply (refreshQuestions_ahead plan (pending.take maxInteractions)).weaken _
        (fun _ _ h => h) fun _ _ h => h
      intro t ht
      obtain ⟨hgt, hentries, ha⟩ := ht
      refine ⟨hgt, ?_⟩
      rw [hentries, ha]
      constructor
      · rw [List.map_map]
        exact hspared
      · intro p hp x hx hid
        obtain ⟨e, he, rfl⟩ := List.mem_map.mp hx
        have hsame := (List.mem_filter.mp he).2
        rw [show e.interactionId = p.1 from hid,
          pendingItem_of_mem hdistinct (List.mem_of_mem_take hp)] at hsame
        exact same_openChatOnly hsame
      · rw [List.map_take]
        exact hdistinct.take
    · intro _
      exact Keeps.bind guarded_lasting.persist fun _ => Keeps.pure
  exact htriple.state ⟨hg, rfl, rfl⟩

theorem Guarded.load (h : Guarded host s) {es : List LedgerEntry}
    (hread : normaliseLedger host.expiry s.stored = some es) :
    Guarded host { s with entries := es, loaded := true } where
  ids := by
    rw [List.map_map]
    exact (normaliseLedger_unshared hread).1
  entries := h.stored es hread
  stored := h.stored
  once := h.once

theorem guarded_startable : Startable host (Guarded host) where
  toLasting := guarded_lasting
  moved := fun s t hs hentries hstored _ _ hanswers =>
    hs.of_same (by rw [hentries]) hanswers (.inl hstored)
  cleared := fun _ hs => hs.drop (List.nil_sublist _) rfl rfl
  loads := fun _ _ hs hread => hs.load hread

/-! ## A reply -/

/-- No reply was sent to the question of `e`, the only one under its id. -/
def Unanswered (host : Host) (e : LedgerEntry) (s : State) : Prop :=
  Guarded host s ∧ (e.interactionId, e.questionId) ∉ answered s.answers ∧
    ∀ x ∈ s.entries, x.interactionId = e.interactionId → x.questionId = e.questionId

def Marked (host : Host) (e : LedgerEntry) (s : State) : Prop :=
  Unanswered host e s ∧ ∀ x ∈ s.entries, x.interactionId = e.interactionId → x.attempted = true

def Claimed (host : Host) (e : LedgerEntry) (s : State) : Prop :=
  Marked host e s ∧ s.stored = ledgerValue (lastEntries s.entries)

theorem unanswered_lasting (e : LedgerEntry) : Lasting (Unanswered host e) :=
  guarded_lasting.and_ledger fun entries answers =>
    (e.interactionId, e.questionId) ∉ answered answers ∧
      ∀ x ∈ entries, x.interactionId = e.interactionId → x.questionId = e.questionId

theorem marked_lasting (e : LedgerEntry) : Lasting (Marked host e) :=
  (unanswered_lasting e).and_ledger fun entries _ =>
    ∀ x ∈ entries, x.interactionId = e.interactionId → x.attempted = true

theorem claimed_lasting (e : LedgerEntry) : Lasting (Claimed host e) where
  after := fun s m hs => ⟨(marked_lasting e).after s m hs.1, hs.2⟩
  saved := by
    intro s m stored hs hstored
    refine ⟨(marked_lasting e).saved s m stored hs.1 hstored, ?_⟩
    cases hstored with
    | inl hold => exact hold.trans hs.2
    | inr hnew => exact hnew

theorem Guarded.unanswered (h : Guarded host s)
    (he : e ∈ s.entries) (hattempted : e.attempted = false) : Unanswered host e s := by
  refine ⟨h, ?_, ?_⟩
  · intro hanswered
    have htrue : e.attempted = true := h.entries e.head (List.mem_map_of_mem he) hanswered
    rw [hattempted] at htrue
    cases htrue
  · intro x hx hid
    rw [List.inj_on_of_nodup_map h.ids_entries hx he hid]

/-- While no reply was sent, the claim may be made and given up. -/
theorem unanswered_claim (e : LedgerEntry) (b : Bool) :
    Keeps (Unanswered host e) (claim e.interactionId b) := by
  apply Keeps.modify
  intro s hs
  obtain ⟨hg, hnot, hsame⟩ := hs
  have hmem : ∀ x ∈ s.entries.map (fun x =>
      if x.interactionId = e.interactionId then { x with attempted := b } else x),
      x ∈ s.entries ∨ x.interactionId = e.interactionId ∧ x.questionId = e.questionId := by
    intro x hx
    obtain ⟨y, hy, rfl⟩ := List.mem_map.mp hx
    by_cases hid : y.interactionId = e.interactionId
    · rw [if_pos hid]
      exact .inr ⟨hid, hsame y hy hid⟩
    · rw [if_neg hid]
      exact .inl hy
  refine ⟨⟨?_, ?_, hg.stored, hg.once⟩, hnot, ?_⟩
  · have hids : ((s.entries.map fun x => if x.interactionId = e.interactionId then
        { x with attempted := b } else x).map LedgerEntry.head).map (·.interactionId) =
          (s.entries.map LedgerEntry.head).map (·.interactionId) := by
      rw [List.map_map, List.map_map, List.map_map]
      apply List.map_congr_left
      intro x _
      show (if x.interactionId = e.interactionId then { x with attempted := b }
        else x).interactionId = x.interactionId
      split
      · rfl
      · rfl
    show (List.map _ (List.map _ (List.map _ s.entries))).Nodup
    rw [hids]
    exact hg.ids
  · intro x hx hanswered
    obtain ⟨y, hy, rfl⟩ := List.mem_map.mp hx
    cases hmem y hy with
    | inl hold => exact hg.entries y.head (List.mem_map_of_mem hold) hanswered
    | inr hnew =>
      have hpair : (y.head.interactionId, y.head.questionId) =
          (e.interactionId, e.questionId) := Prod.ext hnew.1 hnew.2
      rw [hpair] at hanswered
      exact absurd hanswered hnot
  · intro x hx hid
    cases hmem x hx with
    | inl hold => exact hsame x hold hid
    | inr hnew => exact hnew.2

theorem unanswered_mark (e : LedgerEntry) :
    Triple (Unanswered host e) (claim e.interactionId true) (fun _ => Marked host e)
      (fun _ => Unanswered host e) := by
  intro s hs
  have hclaim : Keeps (Unanswered host e) (claim e.interactionId true) := unanswered_claim e true
  obtain ⟨hok, herr⟩ := hclaim s hs
  refine ⟨?_, herr⟩
  intro a t ht
  refine ⟨hok a t ht, ?_⟩
  cases ht
  intro x hx hid
  obtain ⟨y, _, rfl⟩ := List.mem_map.mp hx
  by_cases hy : y.interactionId = e.interactionId
  · rw [if_pos hy]
  · rw [if_neg hy] at hid
    exact absurd hid hy

theorem unanswered_release (e : LedgerEntry) :
    Keeps (Unanswered host e) (release e.interactionId) := by
  unfold release
  refine Keeps.bind (unanswered_claim e false) fun _ => ?_
  refine Keeps.bind (Keeps.attempt (unanswered_lasting e).persist fun stop => ?_) fun saved => ?_
  · split
    · exact Keeps.bind (unanswered_claim e true) fun _ => Keeps.raise
    · exact Keeps.raise
  · split
    · exact unanswered_claim e true
    · exact Keeps.pure

/-- A reply is sent once its claim is saved: everything that can be loaded later says so. -/
theorem Claimed.send (h : Claimed host e s) (request : String) :
    Guarded host { s with
      answers := s.answers ++ [⟨e.interactionId, e.questionId, request⟩] } := by
  obtain ⟨⟨⟨hg, hnot, hsame⟩, hmarked⟩, hstored⟩ := h
  have hsealed : Sealed (s.answers ++ [⟨e.interactionId, e.questionId, request⟩])
      (s.entries.map LedgerEntry.head) := by
    intro x hx hanswered
    obtain ⟨y, hy, rfl⟩ := List.mem_map.mp hx
    rw [answered, List.map_append] at hanswered
    cases List.mem_append.mp hanswered with
    | inl hold => exact hg.entries y.head (List.mem_map_of_mem hy) hold
    | inr hnew =>
      have hpair := List.mem_singleton.mp hnew
      exact hmarked y hy (congrArg Prod.fst hpair)
  refine ⟨hg.ids, hsealed, ?_, ?_⟩
  · intro es hread
    rw [show _ = ledgerValue (lastEntries s.entries) from hstored] at hread
    exact hsealed.saved hread
  · show (answered (s.answers ++ [_])).Nodup
    rw [answered, List.map_append]
    exact List.Nodup.append hg.once (List.nodup_singleton _) (List.disjoint_singleton.mpr hnot)

theorem dispatch_guarded (e : LedgerEntry) (a : ActionRow) :
    Triple (Claimed host e) (dispatch e a) (fun _ => Guarded host) (fun _ => Guarded host) := by
  unfold dispatch
  apply Triple.bind (Q := fun _ => Guarded host)
  · exact Triple.modify fun s hs => hs.send a.clientRequestId
  intro _
  refine Keeps.bind guarded_lasting.pause fun m => ?_
  split
  · exact Keeps.raise
  refine Keeps.bind (guarded_lasting.clearEntry e) fun _ => ?_
  refine Keeps.bind (Keeps.modify fun s hs => ?_) fun _ => ?_
  · exact hs.drop (List.Sublist.map _ List.filter_sublist) rfl rfl
  · exact Keeps.bind guarded_lasting.persist fun _ => Keeps.pure

theorem reply_guarded (e : LedgerEntry) (d : Destination) (a : ActionRow) (userId : String) :
    Triple (fun s => Guarded host s ∧ e ∈ s.entries) (reply host e d a userId)
      (fun _ => Guarded host) (fun _ => Guarded host) := by
  unfold reply
  split
  · exact Triple.raise fun _ hs => hs.1
  rename_i hattempted
  have hreply : Triple (Unanswered host e) (do
      claim e.interactionId true
      let saved ← persist
      if ¬ saved then claim e.interactionId false
      else do
        let confirmed ← attempt (revalidate host e d userId) fun stop => do
          if stop ≠ .crashed then release e.interactionId
          raise stop
        if confirmed then dispatch e a
        else release e.interactionId)
      (fun _ => Guarded host) (fun _ => Guarded host) := by
    have hrelease : Triple (Claimed host e) (release e.interactionId)
        (fun _ => Guarded host) (fun _ => Guarded host) :=
      Triple.weaken (unanswered_release e) (fun _ hs => hs.1.1) (fun _ _ hs => hs.1)
        fun _ _ hs => hs.1
    apply Triple.bind (Q := fun _ => Marked host e)
    · exact (unanswered_mark e).raises fun _ _ hs => hs.1
    intro _
    apply Triple.bind (Q := fun saved s => Marked host e s ∧
      (saved = true → s.stored = ledgerValue (lastEntries s.entries)))
    · exact (marked_lasting e).persist_stored.raises fun _ _ hs => hs.1.1
    intro saved
    split
    · exact Triple.weaken (unanswered_claim e false) (fun _ hs => hs.1.1) (fun _ _ hs => hs.1)
        fun _ _ hs => hs.1
    rename_i hsaved
    have hclaimed : ∀ s, (Marked host e s ∧
        (saved = true → s.stored = ledgerValue (lastEntries s.entries))) →
          Claimed host e s :=
      fun s hs => ⟨hs.1, hs.2 (not_not.mp hsaved)⟩
    apply Triple.bind (Q := fun _ => Claimed host e)
    · apply Triple.attempt (F := fun _ => Claimed host e)
      · exact Triple.weaken ((claimed_lasting e).revalidate host e d userId) hclaimed
          (fun _ _ hs => hs) fun _ _ hs => hs
      · intro stop
        split
        · exact Triple.bind hrelease fun _ => Triple.raise fun _ hs => hs
        · exact Triple.raise fun _ hs => hs.1.1.1
    · intro confirmed
      split
      · exact dispatch_guarded e a
      · exact hrelease
  exact hreply.weaken (fun s hs => hs.1.unanswered hs.2 (Bool.eq_false_iff.mpr hattempted))
    (fun _ _ hs => hs) fun _ _ hs => hs

theorem findAction_mem {entries : List LedgerEntry} {token : String}
    {d : Destination} {a : ActionRow} (h : findAction entries token = some (e, d, a)) :
    e ∈ entries := by
  unfold findAction at h
  obtain ⟨x, hx, hfound⟩ := List.exists_of_findSome?_eq_some h
  obtain ⟨y, _, hy⟩ := List.exists_of_findSome?_eq_some hfound
  obtain ⟨z, _, hz⟩ := Option.map_eq_some_iff.mp hy
  cases hz
  exact hx

theorem onAction_guarded (event : ActionEvent) : Keeps (Guarded host) (onAction host event) := by
  apply Keeps.of_state
  intro s hs
  unfold onAction
  rw [routine_state]
  refine Triple.state (P := Guarded host) (I := Guarded host) ?_ hs
  refine Keeps.bind Keeps.read fun ready => ?_
  split
  · rename_i userId token _ _
    split
    · exact Keeps.raise
    refine Keeps.bind guarded_lasting.pause fun _ => Keeps.bind Keeps.read fun closed => ?_
    apply Triple.bind (Q := fun entries s => Guarded host s ∧ s.entries = entries)
    · exact Triple.read fun s hs => ⟨hs, rfl⟩
    intro entries
    split
    · exact Triple.raise fun _ hs => hs.1
    split
    · exact Triple.raise fun _ hs => hs.1
    rename_i e d a hfound
    have hadmit : Keeps (fun s => Guarded host s ∧ e ∈ s.entries)
        (checkReply host e d a userId event) :=
      (guarded_lasting.and_ledger fun es _ => e ∈ es).checkReply host e d a userId event
    apply Triple.bind (Q := fun _ s => Guarded host s ∧ e ∈ s.entries)
    · apply Triple.weaken hadmit _ (fun _ _ hs => hs) fun _ _ hs => hs.1
      intro s hs
      exact ⟨hs.1, hs.2 ▸ findAction_mem hfound⟩
    · intro admitted
      split
      · exact reply_guarded e d a _
      · exact Triple.raise fun _ hs => hs.1
  · exact Keeps.raise

theorem guarded_initial (surroundings : Surroundings) :
    Guarded host (State.initial surroundings) where
  ids := List.nodup_nil
  entries := fun x hx => by cases hx
  stored := by
    intro es hread
    cases hread
    intro x hx
    cases hx
  once := List.nodup_nil

theorem guarded_next {s t : State} {step : Step} (hs : Guarded host s)
    (hc : SparesAnswered host s step) (h : next host s step = some t) : Guarded host t := by
  apply guarded_startable.next _ onAction_guarded hs hc h
  intro input t hinput ht hspared
  obtain ⟨now, items, hpending⟩ := hinput
  apply refreshWith_guarded ht
  · rw [hpending]
    exact nodup_pendingOf now items
  · exact hspared

/-- Where no refresh makes a new entry for a question to which a reply was sent, every reply to
a question carries the same request id. -/
theorem State.replies_once {surroundings : Surroundings} {steps : List Step} {t : State}
    (hspares : Runs.Meets (next host) (SparesAnswered host) (State.initial surroundings) steps)
    (h : Runs.exec (next host) (State.initial surroundings) steps = some t) :
    ∀ a ∈ t.answers, ∀ b ∈ t.answers, a.interactionId = b.interactionId →
      a.questionId = b.questionId → a.clientRequestId = b.clientRequestId := by
  have hguarded := Runs.invariant_of_meets (fun _ _ _ hs hc hn => guarded_next hs hc hn)
    (guarded_initial surroundings) hspares h
  intro a ha b hb hid hquestion
  have heq : a = b := List.inj_on_of_nodup_map hguarded.once ha hb (Prod.ext hid hquestion)
  rw [heq]

end

def failedReply : List Step :=
  [.start [.quiet, .quiet, .quiet, sampleListing, sampleFound [0]],
    .action ⟨true, some "user", .str (sampleHost.token 0), .str "blue"⟩
      [.quiet, sampleFound [0], sampleListing, .quiet, sampleListing,
        sampleFound [0], { Moment.quiet with outcome := .raised }]]

def secondReply (drawn : Nat) : Step :=
  .action ⟨true, some "user", .str (sampleHost.token drawn), .str "blue"⟩
    [.quiet, sampleFound [0], sampleListing, .quiet, sampleListing, sampleFound [0]]

theorem State.replies_once_failed :
    (Runs.exec (next sampleHost) (State.initial (sampleSurroundings true [0]))
      (failedReply ++ [.refresh [.quiet, sampleListing, sampleFound [0]],
        secondReply 0])).any (fun t => t.answers.length = 1) = true ∧
      ∀ t, Runs.exec (next sampleHost) (State.initial (sampleSurroundings true [0]))
        (failedReply ++ [.refresh [.quiet, sampleListing, sampleFound [0]],
          secondReply 0]) = some t →
        ∀ a ∈ t.answers, ∀ b ∈ t.answers, a.interactionId = b.interactionId →
          a.questionId = b.questionId → a.clientRequestId = b.clientRequestId := by
  have hspares : Runs.Meets (next sampleHost) (SparesAnswered sampleHost)
      (State.initial (sampleSurroundings true [0]))
      (failedReply ++ [.refresh [.quiet, sampleListing, sampleFound [0]],
        secondReply 0]) := by
    decide +kernel
  exact ⟨by decide +kernel, fun t ht => State.replies_once hspares ht⟩

/-- Notifications are switched off and on again, and the entry forgets that a reply was sent. -/
theorem State.replies_differ :
    ∃ t, Runs.exec (next sampleHost) (State.initial (sampleSurroundings true [0]))
        (failedReply ++ [.surround (sampleSurroundings false [0]), .refresh [],
          .surround (sampleSurroundings true [0]),
          .refresh [.quiet, sampleListing, sampleFound [0]], secondReply 1]) = some t ∧
      ∃ a ∈ t.answers, ∃ b ∈ t.answers, a.interactionId = b.interactionId ∧
        a.questionId = b.questionId ∧ a.clientRequestId ≠ b.clientRequestId := by
  have hrun : (Runs.exec (next sampleHost) (State.initial (sampleSurroundings true [0]))
      (failedReply ++ [.surround (sampleSurroundings false [0]), .refresh [],
        .surround (sampleSurroundings true [0]),
        .refresh [.quiet, sampleListing, sampleFound [0]], secondReply 1])).any
      (fun t => ∃ a ∈ t.answers, ∃ b ∈ t.answers, a.interactionId = b.interactionId ∧
        a.questionId = b.questionId ∧ a.clientRequestId ≠ b.clientRequestId) = true := by
    decide +kernel
  obtain ⟨t, ht, hdiffer⟩ := (Option.any_eq_true _ _).mp hrun
  exact ⟨t, ht, of_decide_eq_true hdiffer⟩

end CodexBridge.Questions
