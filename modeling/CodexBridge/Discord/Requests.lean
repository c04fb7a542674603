import CodexBridge.Discord.Channel

/-! # The requests of the channel

What the rows of the journal, the tasks of the runtime and the trace have to do with each
other, and what each kind of write does to it: a claim, an admission, a receipt or a mark,
a post.
-/

namespace CodexBridge.Discord

namespace Event

def isAdmission (id : String) : Event → Bool
  | .admitted i _ => i = id
  | _ => false

def isAttempt (id : String) : Event → Bool
  | .attempted i => i = id
  | _ => false

def isPost (id : String) : Event → Bool
  | .posted i _ _ => i = id
  | _ => false

def isRateLimited (id : String) : Event → Bool
  | .rateLimited i => i = id
  | _ => false

end Event

def PolicyRow.Fits (policy : PolicyRow) (row : Request) : Prop :=
  row.epoch = policy.epoch ∧
    permitted policy.definition row.userId row.guildId row.channelId false = true

/-! ## The invariant of the requests -/

structure InForce (policy : PolicyRow) (requests : Dict String Request) : Prop where
  pending : ∀ id row, requests.get? id = some row → row.delivery = .pending → policy.Fits row
  past : ∀ id row, requests.get? id = some row → row.epoch ≤ policy.epoch
  token : ∀ t, policy.botToken = some t → isToken t = true
  enabled : policy.definition.enabled = true → policy.botToken ≠ none

structure Books (requests : Dict String Request) (tasks : Dict String Task)
    (trace : List Event) : Prop where
  unique : ∀ id id' row row', requests.get? id = some row → requests.get? id' = some row' →
    row.taskId = row'.taskId → id = id'
  admitted : ∀ id e, .admitted id e ∈ trace → ∃ row t, requests.get? id = some row ∧
    row.epoch = e ∧ tasks.get? row.taskId = some t
  admittedOnce : ∀ id, trace.countP (Event.isAdmission id) ≤ 1
  failed : ∀ id row, requests.get? id = some row → row.delivery = .failed →
    ∀ e, .admitted id e ∉ trace
  attempted : ∀ id, .attempted id ∈ trace → ∃ row, requests.get? id = some row ∧
    (row.delivery = .attempted ∨ row.delivery = .delivered)
  attemptedOnce : ∀ id, trace.countP (Event.isAttempt id) ≤ 1
  posted : ∀ id row policy, .posted id row policy ∈ trace → policy.Fits row ∧ .attempted id ∈ trace
  postedOnce : ∀ id, trace.countP (Event.isPost id) ≤ trace.countP (Event.isRateLimited id) + 1

/-- Two versions of one row: what a claim wrote stays. -/
structure SameClaim (row row' : Request) : Prop where
  taskId : row'.taskId = row.taskId
  epoch : row'.epoch = row.epoch
  userId : row'.userId = row.userId
  guildId : row'.guildId = row.guildId
  channelId : row'.channelId = row.channelId

/-- The rows were read from the journal, which may have later versions of them. -/
def Copies (requests : Dict String Request) (rows : List (String × Request)) : Prop :=
  ∀ id row, (id, row) ∈ rows → ∃ row', requests.get? id = some row' ∧ SameClaim row row'

section

variable {row row' : Request} {policy : PolicyRow}

theorem sameClaim_refl (row : Request) : SameClaim row row := ⟨rfl, rfl, rfl, rfl, rfl⟩

theorem SameClaim.trans {row'' : Request} (h : SameClaim row row') (h' : SameClaim row' row'') :
    SameClaim row row'' where
  taskId := h'.taskId.trans h.taskId
  epoch := h'.epoch.trans h.epoch
  userId := h'.userId.trans h.userId
  guildId := h'.guildId.trans h.guildId
  channelId := h'.channelId.trans h.channelId

theorem SameClaim.fits (h : SameClaim row row') : policy.Fits row' ↔ policy.Fits row := by
  unfold PolicyRow.Fits
  rw [h.epoch, h.userId, h.guildId, h.channelId]

/-- How an update may change a row: what was sent stays sent, and a request fails only if
it was never admitted. -/
structure Follows (id : String) (trace : List Event) (row row' : Request) : Prop where
  same : SameClaim row row'
  sent : row.delivery = .attempted ∨ row.delivery = .delivered →
    row'.delivery = .attempted ∨ row'.delivery = .delivered
  failed : row'.delivery = .failed → row.delivery = .failed ∨ ∀ e, .admitted id e ∉ trace
  pending : row'.delivery = .pending → row.delivery = .pending

theorem follows_refl (id : String) (trace : List Event) (row : Request) :
    Follows id trace row row :=
  ⟨sameClaim_refl row, fun h => h, .inl, fun h => h⟩

end

/-! ## What the steps do to the invariant -/

section

variable {requests requests' : Dict String Request} {tasks : Dict String Task}
  {trace : List Event} {id : String} {row : Request} {policy : PolicyRow}
  {f : String → Request → Request}

theorem Copies.tail {rows : List (String × Request)} (h : Copies requests ((id, row) :: rows)) :
    Copies requests rows :=
  fun id row hm => h id row (List.mem_cons_of_mem _ hm)

theorem Copies.update {rows : List (String × Request)} {g : Request → Request}
    (h : Copies requests rows) (hg : ∀ row, SameClaim row (g row)) :
    Copies (requests.update id g) rows := by
  intro i row hm
  obtain ⟨row', hr, hsame⟩ := h i row hm
  by_cases hi : i = id
  · exact ⟨g row', by rw [Dict.get?_update, if_pos hi, hr, Option.map_some], hsame.trans (hg row')⟩
  · exact ⟨row', by rw [Dict.get?_update, if_neg hi, hr], hsame⟩

theorem sameClaim_mark {expected next : Delivery} {messageId : Option String} (row : Request) :
    SameClaim row (if row.delivery = expected then
      { row with delivery := next, messageId := messageId } else row) := by
  split
  · exact ⟨rfl, rfl, rfl, rfl, rfl⟩
  · exact sameClaim_refl row

theorem sameClaim_recordRun {threadId runId : String} (row : Request) :
    SameClaim row (if row.delivery = .pending then
      { row with threadId := some threadId, runId := some runId } else row) := by
  split
  · exact ⟨rfl, rfl, rfl, rfl, rfl⟩
  · exact sameClaim_refl row

theorem InForce.rewrite (h : InForce policy requests)
    (hget : ∀ id, requests'.get? id = (requests.get? id).map (f id))
    (hf : ∀ id row, requests.get? id = some row → Follows id trace row (f id row)) :
    InForce policy requests' where
  pending id row' hr hp := by
    rw [hget] at hr
    obtain ⟨row, hrow, he⟩ := Option.map_eq_some_iff.mp hr
    have hfollows := hf id row hrow
    rw [← he] at hp ⊢
    exact hfollows.same.fits.mpr (h.pending id row hrow (hfollows.pending hp))
  past id row' hr := by
    rw [hget] at hr
    obtain ⟨row, hrow, he⟩ := Option.map_eq_some_iff.mp hr
    rw [← he, (hf id row hrow).same.epoch]
    exact h.past id row hrow
  token := h.token
  enabled := h.enabled

theorem Books.rewrite (h : Books requests tasks trace)
    (hget : ∀ id, requests'.get? id = (requests.get? id).map (f id))
    (hf : ∀ id row, requests.get? id = some row → Follows id trace row (f id row)) :
    Books requests' tasks trace where
  unique id id' row row' hr hr' htask := by
    rw [hget] at hr hr'
    obtain ⟨old, hold, he⟩ := Option.map_eq_some_iff.mp hr
    obtain ⟨old', hold', he'⟩ := Option.map_eq_some_iff.mp hr'
    rw [← he, ← he', (hf id old hold).same.taskId, (hf id' old' hold').same.taskId] at htask
    exact h.unique id id' old old' hold hold' htask
  admitted id e hm := by
    obtain ⟨row, t, hr, he, ht⟩ := h.admitted id e hm
    have hsame := (hf id row hr).same
    refine ⟨f id row, t, ?_, ?_, ?_⟩
    · rw [hget, hr, Option.map_some]
    · rw [hsame.epoch, he]
    · rw [hsame.taskId, ht]
  admittedOnce := h.admittedOnce
  failed id row' hr hd := by
    rw [hget] at hr
    obtain ⟨row, hrow, he⟩ := Option.map_eq_some_iff.mp hr
    rw [← he] at hd
    rcases (hf id row hrow).failed hd with hfailed | hnever
    · exact h.failed id row hrow hfailed
    · exact hnever
  attempted id hm := by
    obtain ⟨row, hr, hd⟩ := h.attempted id hm
    refine ⟨f id row, ?_, (hf id row hr).sent hd⟩
    rw [hget, hr, Option.map_some]
  attemptedOnce := h.attemptedOnce
  posted := h.posted
  postedOnce := h.postedOnce

theorem InForce.claim (h : InForce policy requests) (hfits : policy.Fits row) :
    InForce policy (requests.set id row) where
  pending i r hr hp := by
    rw [Dict.get?_set] at hr
    split at hr
    · cases hr
      exact hfits
    · exact h.pending i r hr hp
  past i r hr := by
    rw [Dict.get?_set] at hr
    split at hr
    · cases hr
      exact Nat.le_of_eq hfits.1
    · exact h.past i r hr
  token := h.token
  enabled := h.enabled

theorem Books.claim (h : Books requests tasks trace) (hnew : requests.get? id = none)
    (htask : ∀ id' row', requests.get? id' = some row' → row'.taskId ≠ row.taskId)
    (hrow : row.delivery = .pending) : Books (requests.set id row) tasks trace where
  unique i i' r r' hr hr' he := by
    rw [Dict.get?_set] at hr hr'
    split at hr
    · rename_i hi
      cases hr
      split at hr'
      · rename_i hi'
        rw [hi, hi']
      · exact absurd he.symm (htask i' r' hr')
    · split at hr'
      · cases hr'
        exact absurd he (htask i r hr)
      · exact h.unique i i' r r' hr hr' he
  admitted i e hm := by
    obtain ⟨r, t, hr, he, ht⟩ := h.admitted i e hm
    refine ⟨r, t, ?_, he, ht⟩
    rw [Dict.get?_set_of_ne]
    · exact hr
    intro hi
    rw [hi, hnew] at hr
    cases hr
  admittedOnce := h.admittedOnce
  failed i r hr hd := by
    rw [Dict.get?_set] at hr
    split at hr
    · cases hr
      rw [hrow] at hd
      cases hd
    · exact h.failed i r hr hd
  attempted i hm := by
    obtain ⟨r, hr, hd⟩ := h.attempted i hm
    refine ⟨r, ?_, hd⟩
    rw [Dict.get?_set_of_ne]
    · exact hr
    intro hi
    rw [hi, hnew] at hr
    cases hr
  attemptedOnce := h.attemptedOnce
  posted := h.posted
  postedOnce := h.postedOnce

theorem countP_eq_zero_of_fresh (hnever : ∀ e, .admitted id e ∉ trace) :
    trace.countP (Event.isAdmission id) = 0 := by
  rw [List.countP_eq_zero]
  intro e hm ht
  cases e with
  | admitted i epoch =>
    have hi : i = id := by simpa [Event.isAdmission] using ht
    rw [hi] at hm
    exact hnever epoch hm
  | attempted i => cases ht
  | posted i r p => cases ht
  | rateLimited i => cases ht
  | cancelRequested i => cases ht

theorem countP_eq_zero_of_unattempted (hnever : .attempted id ∉ trace) :
    trace.countP (Event.isAttempt id) = 0 := by
  rw [List.countP_eq_zero]
  intro e hm ht
  cases e with
  | attempted i =>
    have hi : i = id := by simpa [Event.isAttempt] using ht
    rw [hi] at hm
    exact hnever hm
  | admitted i epoch => cases ht
  | posted i r p => cases ht
  | rateLimited i => cases ht
  | cancelRequested i => cases ht

section

variable (h : Books requests tasks trace)

include h

/-- The runtime takes the task of a request for the first time. -/
theorem Books.admit (hr : requests.get? id = some row)
    (hp : row.delivery = .pending) (hnever : ∀ e, .admitted id e ∉ trace) (t : Task) :
    Books requests (tasks.set row.taskId t) (.admitted id row.epoch :: trace) where
  unique := h.unique
  admitted i e hm := by
    rcases List.mem_cons.mp hm with he | hm
    · cases he
      exact ⟨row, t, hr, rfl, Dict.get?_set_self _ _ _⟩
    obtain ⟨r, t', hr', he, ht⟩ := h.admitted i e hm
    rw [← he]
    by_cases htask : r.taskId = row.taskId
    · exact ⟨r, t, hr', rfl, by rw [htask, Dict.get?_set_self]⟩
    · exact ⟨r, t', hr', rfl, by rw [Dict.get?_set_of_ne _ _ htask, ht]⟩
  admittedOnce i := by
    rw [List.countP_cons]
    by_cases hi : id = i
    · rw [← hi, countP_eq_zero_of_fresh hnever]
      split <;> omega
    have hno : Event.isAdmission i (.admitted id row.epoch) = false := by
      simp [Event.isAdmission, hi]
    rw [hno]
    exact h.admittedOnce i
  failed i r hr' hd e hm := by
    rcases List.mem_cons.mp hm with he | hm
    · cases he
      rw [hr] at hr'
      cases hr'
      rw [hp] at hd
      cases hd
    · exact h.failed i r hr' hd e hm
  attempted i hm := h.attempted i (by simpa using hm)
  attemptedOnce i := by
    rw [List.countP_cons]
    exact h.attemptedOnce i
  posted i r p hm := by
    have hpost := h.posted i r p (by simpa using hm)
    exact ⟨hpost.1, List.mem_cons_of_mem _ hpost.2⟩
  postedOnce i := by
    rw [List.countP_cons, List.countP_cons]
    exact h.postedOnce i

theorem Books.attempt (hr : requests.get? id = some row)
    (hd : row.delivery = .attempted) (hnever : .attempted id ∉ trace) :
    Books requests tasks (.attempted id :: trace) where
  unique := h.unique
  admitted i e hm := h.admitted i e (by simpa using hm)
  admittedOnce i := by
    rw [List.countP_cons]
    exact h.admittedOnce i
  failed i r hr' hf e hm := h.failed i r hr' hf e (by simpa using hm)
  attempted i hm := by
    rcases List.mem_cons.mp hm with he | hm
    · cases he
      exact ⟨row, hr, .inl hd⟩
    · exact h.attempted i hm
  attemptedOnce i := by
    rw [List.countP_cons]
    by_cases hi : id = i
    · rw [← hi, countP_eq_zero_of_unattempted hnever]
      split <;> omega
    have hno : Event.isAttempt i (.attempted id) = false := by
      simp [Event.isAttempt, hi]
    rw [hno]
    exact h.attemptedOnce i
  posted i r p hm := by
    have hpost := h.posted i r p (by simpa using hm)
    exact ⟨hpost.1, List.mem_cons_of_mem _ hpost.2⟩
  postedOnce i := by
    rw [List.countP_cons, List.countP_cons]
    exact h.postedOnce i

theorem Books.post (hfits : policy.Fits row) (hattempted : .attempted id ∈ trace)
    (hcount : trace.countP (Event.isPost id) ≤ trace.countP (Event.isRateLimited id)) :
    Books requests tasks (.posted id row policy :: trace) where
  unique := h.unique
  admitted i e hm := h.admitted i e (by simpa using hm)
  admittedOnce i := by
    rw [List.countP_cons]
    exact h.admittedOnce i
  failed i r hr' hf e hm := h.failed i r hr' hf e (by simpa using hm)
  attempted i hm := h.attempted i (by simpa using hm)
  attemptedOnce i := by
    rw [List.countP_cons]
    exact h.attemptedOnce i
  posted i r p hm := by
    rcases List.mem_cons.mp hm with he | hm
    · cases he
      exact ⟨hfits, List.mem_cons_of_mem _ hattempted⟩
    · have hpost := h.posted i r p hm
      exact ⟨hpost.1, List.mem_cons_of_mem _ hpost.2⟩
  postedOnce i := by
    have hold := h.postedOnce i
    rw [List.countP_cons, List.countP_cons]
    by_cases hi : id = i
    · rw [← hi] at hold ⊢
      simp only [Event.isRateLimited, Bool.false_eq_true, if_false]
      split <;> omega
    have hno : Event.isPost i (.posted id row policy) = false := by
      simp [Event.isPost, hi]
    rw [hno]
    exact hold

theorem Books.report {e : Event} (he : (∃ i, e = .rateLimited i) ∨ ∃ i, e = .cancelRequested i) :
    Books requests tasks (e :: trace) := by
  have hadmission : ∀ i, Event.isAdmission i e = false := by
    rcases he with ⟨j, rfl⟩ | ⟨j, rfl⟩ <;> exact fun _ => rfl
  have hattempt : ∀ i, Event.isAttempt i e = false := by
    rcases he with ⟨j, rfl⟩ | ⟨j, rfl⟩ <;> exact fun _ => rfl
  have hpost : ∀ i, Event.isPost i e = false := by
    rcases he with ⟨j, rfl⟩ | ⟨j, rfl⟩ <;> exact fun _ => rfl
  have hold : ∀ x : Event, x ∈ e :: trace → (∀ j, x ≠ .rateLimited j) →
      (∀ j, x ≠ .cancelRequested j) → x ∈ trace := by
    intro x hm hlimited hcancel
    rcases List.mem_cons.mp hm with hx | hm
    · rcases he with ⟨j, hj⟩ | ⟨j, hj⟩
      · exact absurd (hx.trans hj) (hlimited j)
      · exact absurd (hx.trans hj) (hcancel j)
    · exact hm
  exact {
    unique := h.unique
    admitted := fun i epoch hm => h.admitted i epoch (hold _ hm (by simp) (by simp))
    admittedOnce := fun i => by
      rw [List.countP_cons, hadmission]
      exact h.admittedOnce i
    failed := fun i r hr hf epoch hm =>
      h.failed i r hr hf epoch (hold _ hm (by simp) (by simp))
    attempted := fun i hm => h.attempted i (hold _ hm (by simp) (by simp))
    attemptedOnce := fun i => by
      rw [List.countP_cons, hattempt]
      exact h.attemptedOnce i
    posted := fun i r p hm => by
      have hpost := h.posted i r p (hold _ hm (by simp) (by simp))
      exact ⟨hpost.1, List.mem_cons_of_mem _ hpost.2⟩
    postedOnce := fun i => by
      have hcount := h.postedOnce i
      rw [List.countP_cons, List.countP_cons, hpost]
      simp only [Bool.false_eq_true, if_false]
      omega }

theorem Books.updateTask (taskId : String) (g : Task → Task) :
    Books requests (tasks.update taskId g) trace where
  unique := h.unique
  admitted i e hm := by
    obtain ⟨r, t, hr, he, ht⟩ := h.admitted i e hm
    by_cases htask : r.taskId = taskId
    · exact ⟨r, g t, hr, he, by rw [Dict.get?_update, if_pos htask, ht, Option.map_some]⟩
    · exact ⟨r, t, hr, he, by rw [Dict.get?_update, if_neg htask, ht]⟩
  admittedOnce := h.admittedOnce
  failed := h.failed
  attempted := h.attempted
  attemptedOnce := h.attemptedOnce
  posted := h.posted
  postedOnce := h.postedOnce

end

end

end CodexBridge.Discord
