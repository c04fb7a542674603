import CodexBridge.Discord.Requests

/-! # Fencing by policy epoch

What a run of the channel guarantees about a request: one admission, one delivery attempt,
posts under the policy that admitted it, and the cancellation of its task when the policy
changes. The last part needs the receipts of the admitted tasks and a process that lives
through the cancellations.
-/

namespace CodexBridge.Discord

open Effect

namespace Channel

def Uncancelled (c : Channel) (id : String) (row : Request) : Prop :=
  (∃ t, c.tasks.get? row.taskId = some t ∧ t.status = .live) ∧ .cancelRequested id ∉ c.trace

/-! ## What must hold -/

structure Fenced (c : Channel) : Prop where
  admittedOnce : ∀ id, c.trace.countP (Event.isAdmission id) ≤ 1
  attemptedOnce : ∀ id, c.trace.countP (Event.isAttempt id) ≤ 1
  /-- The one attempt posts again only what Discord refused as too frequent. -/
  postedOnce : ∀ id, c.trace.countP (Event.isPost id) ≤ c.trace.countP (Event.isRateLimited id) + 1
  postedAttempt : ∀ id row policy, .posted id row policy ∈ c.trace → .attempted id ∈ c.trace
  sent : ∀ id row policy, .posted id row policy ∈ c.trace → policy.Fits row
  pending : ∀ id row, c.state.requests.get? id = some row → row.delivery = .pending →
    row.epoch = c.state.policy.epoch
  failed : ∀ id row, c.state.requests.get? id = some row → row.delivery = .failed →
    ∀ e, .admitted id e ∉ c.trace
  known : ∀ id e, .admitted id e ∈ c.trace → ∃ row t, c.state.requests.get? id = some row ∧
    row.epoch = e ∧ c.tasks.get? row.taskId = some t
  /-- When `configure` or `revoke` returns, nothing admitted before is left to run. -/
  cancelled : ∀ restart, c.holder = .cancelling [] restart → ∀ id e row,
    .admitted id e ∈ c.trace → e < c.state.policy.epoch →
      c.state.requests.get? id = some row → ¬ c.Uncancelled id row

/-- The request whose task `_recover_claims` asks for next. -/
def asked (c : Channel) : Option Request :=
  match c.holder with
  | .recovering ((_, row) :: _) _ => some row
  | _ => none

/-- No policy change finds a running task without a receipt, no crash falls between a
policy change and its last cancellation, and a task reported missing was never admitted. -/
def Orderly (c : Channel) : Step → Prop
  | .commit => ∀ id row, c.state.requests.get? id = some row → row.delivery = .pending →
      c.Uncancelled id row → row.hasRun = true
  | .crash => ∀ id row, c.state.requests.get? id = some row → row.delivery ≠ .pending →
      ¬ c.Uncancelled id row
  | .recover .answered => ∀ row, c.asked = some row → c.getTask row.taskId = none →
      c.tasks.get? row.taskId = none
  | _ => True

instance (c : Channel) (id : String) (row : Request) : Decidable (c.Uncancelled id row) :=
  decidable_of_iff ((∃ t ∈ c.tasks.get? row.taskId, t.status = .live) ∧
      .cancelRequested id ∉ c.trace) Iff.rfl

instance (c : Channel) : (step : Step) → Decidable (c.Orderly step)
  | .commit => decidable_of_iff (∀ e ∈ c.state.requests.entries, e.2.delivery = .pending →
      c.Uncancelled e.1 e.2 → e.2.hasRun = true)
      ⟨fun h id row hr => h (id, row) ((Dict.get?_eq_some_iff _ _ _).mp hr),
        fun h e he => h e.1 e.2 ((Dict.get?_eq_some_iff _ _ _).mpr he)⟩
  | .crash => decidable_of_iff (∀ e ∈ c.state.requests.entries, e.2.delivery ≠ .pending →
      ¬ c.Uncancelled e.1 e.2)
      ⟨fun h id row hr => h (id, row) ((Dict.get?_eq_some_iff _ _ _).mp hr),
        fun h e he => h e.1 e.2 ((Dict.get?_eq_some_iff _ _ _).mpr he)⟩
  | .recover .answered => inferInstanceAs (Decidable (∀ row ∈ c.asked,
      c.getTask row.taskId = none → c.tasks.get? row.taskId = none))
  | .recover .unavailable | .start | .connect | .disconnect | .interact _ | .serve _
  | .admission _ | .record | .link | .choose _ | .wake | .poll | .relink _ | .deliver _
  | .post _ | .receipt | .configure _ _ | .revoke | .cancel | .proceed | .fault | .close
  | .taskEnds _ _ | .forget _ => isTrue trivial

end Channel

/-- `_cancel_pending` holds the lock. -/
def Holder.isCancelling : Holder → Bool
  | .cancelling _ _ => true
  | _ => false

namespace Channel

def Standing (c : Channel) : Prop :=
  match c.holder with
  | .admitting id row _ => c.state.requests.get? id = some row ∧ row.delivery = .pending ∧
      ∀ e, .admitted id e ∉ c.trace
  | .recovering rows _ => Copies c.state.requests rows
  | .relinking _ _ rows _ => Copies c.state.requests rows
  | .delivering rows => Copies c.state.requests rows
  | .posting id _ => (∃ row, c.state.requests.get? id = some row ∧ c.state.policy.Fits row) ∧
      .attempted id ∈ c.trace ∧
        c.trace.countP (Event.isPost id) ≤ c.trace.countP (Event.isRateLimited id)
  | .changing change rows =>
    (∀ id row, c.state.requests.get? id = some row → row.delivery = .pending → (id, row) ∈ rows) ∧
    ∀ clean token, change = .configure clean token → clean.WellFormed ∧
      (∀ t, token.or c.state.policy.botToken = some t → isToken t = true) ∧
        (clean.enabled = true → token.or c.state.policy.botToken ≠ none)
  | _ => True

def Awaits (c : Channel) (id : String) : Prop :=
  ∃ rows restart row, c.holder = .cancelling rows restart ∧ (id, row) ∈ rows ∧ row.hasRun = true

structure Inv (c : Channel) : Prop where
  inForce : InForce c.state.policy c.state.requests
  definition : c.state.policy.definition.WellFormed
  books : Books c.state.requests c.tasks c.trace
  standing : c.Standing
  settled : ∀ id row, c.state.requests.get? id = some row → row.delivery ≠ .pending →
    c.Uncancelled id row → c.Awaits id

theorem Inv.fenced {c : Channel} (h : c.Inv) : c.Fenced where
  admittedOnce := h.books.admittedOnce
  attemptedOnce := h.books.attemptedOnce
  postedOnce := h.books.postedOnce
  postedAttempt id row policy hm := (h.books.posted id row policy hm).2
  sent id row policy hm := (h.books.posted id row policy hm).1
  pending id row hr hp := (h.inForce.pending id row hr hp).1
  failed := h.books.failed
  known := h.books.admitted
  cancelled restart hholder id e row hm he hr := by
    intro hu
    obtain ⟨row', t, hr', hrow, ht⟩ := h.books.admitted id e hm
    have heq : row' = row := Option.some.inj (hr'.symm.trans hr)
    have hpast : row.delivery ≠ .pending := by
      intro hp
      have hcurrent := (h.inForce.pending id row hr hp).1
      rw [heq] at hrow
      omega
    obtain ⟨rows, restart', row'', hc, hrows, -⟩ := h.settled id row hr hpast hu
    rw [hholder] at hc
    cases hc
    cases hrows

theorem inv_initial : initial.Inv where
  inForce := {
    pending := fun id row hr => by cases hr
    past := fun id row hr => by cases hr
    token := fun t ht => by cases ht
    enabled := fun h => by cases h }
  definition := closed_wellFormed
  books := {
    unique := fun id id' row row' hr => by cases hr
    admitted := fun id e hm => by cases hm
    admittedOnce := fun id => Nat.zero_le _
    failed := fun id row hr => by cases hr
    attempted := fun id hm => by cases hm
    attemptedOnce := fun id => Nat.zero_le _
    posted := fun id row policy hm => by cases hm
    postedOnce := fun id => Nat.zero_le _ }
  standing := trivial
  settled := fun id row hr => by cases hr

section

variable {c t : Channel} {env : Settings} {f : String → Request → Request}

variable {id : String} {row : Request}

/-- Outside the cancellations, a request that is not pending has no running task that
nobody asked to cancel. -/
theorem Inv.quiet (h : c.Inv) (hholder : c.holder.isCancelling = false)
    (hr : c.state.requests.get? id = some row)
    (hd : row.delivery ≠ .pending) : ¬ c.Uncancelled id row := by
  intro hu
  obtain ⟨rows, restart, row', hc, -⟩ := h.settled id row hr hd hu
  rw [hc] at hholder
  cases hholder

theorem Inv.not_awaits (hholder : c.holder.isCancelling = false) (id : String) : ¬ c.Awaits id := by
  rintro ⟨rows, restart, row, hc, -⟩
  rw [hc] at hholder
  cases hholder

/-- The lock passes on, or a process flag changes. -/
theorem Inv.moves (h : c.Inv) (hpolicy : t.state.policy = c.state.policy)
    (hrequests : t.state.requests = c.state.requests) (htasks : t.tasks = c.tasks)
    (htrace : t.trace = c.trace) (hstanding : t.Standing)
    (hawaits : ∀ id row, c.state.requests.get? id = some row → row.delivery ≠ .pending →
      c.Uncancelled id row → c.Awaits id → t.Awaits id) : t.Inv where
  inForce := by
    rw [hpolicy, hrequests]
    exact h.inForce
  definition := by
    rw [hpolicy]
    exact h.definition
  books := by
    rw [hrequests, htasks, htrace]
    exact h.books
  standing := hstanding
  settled id row hr hd hu := by
    rw [hrequests] at hr
    have hu' : c.Uncancelled id row := by
      unfold Uncancelled at hu ⊢
      rw [htasks, htrace] at hu
      exact hu
    exact hawaits id row hr hd hu' (h.settled id row hr hd hu')

theorem Inv.rewrites (h : c.Inv) (hholder : c.holder.isCancelling = false)
    (hpolicy : t.state.policy = c.state.policy)
    (hget : ∀ id, t.state.requests.get? id = (c.state.requests.get? id).map (f id))
    (hf : ∀ id row, c.state.requests.get? id = some row → Follows id c.trace row (f id row))
    (htasks : t.tasks = c.tasks) (htrace : t.trace = c.trace) (hstanding : t.Standing)
    (hsettled : ∀ id row, c.state.requests.get? id = some row → row.delivery = .pending →
      (f id row).delivery ≠ .pending → ¬ c.Uncancelled id row) : t.Inv where
  inForce := by
    rw [hpolicy]
    exact h.inForce.rewrite hget hf
  definition := by
    rw [hpolicy]
    exact h.definition
  books := by
    rw [htasks, htrace]
    exact h.books.rewrite hget hf
  standing := hstanding
  settled id row hr hd hu := by
    rw [hget] at hr
    obtain ⟨old, hold, he⟩ := Option.map_eq_some_iff.mp hr
    have hu' : c.Uncancelled id old := by
      unfold Uncancelled at hu ⊢
      rw [htasks, htrace, ← he, (hf id old hold).same.taskId] at hu
      exact hu
    by_cases hp : old.delivery = .pending
    · rw [← he] at hd
      exact absurd hu' (hsettled id old hold hp hd)
    · exact absurd hu' (h.quiet hholder hold hp)

theorem copies_of_mem {requests : Dict String Request} {rows : List (String × Request)}
    (h : ∀ e ∈ rows, e ∈ requests.entries) : Copies requests rows := by
  intro id row hm
  exact ⟨row, (Dict.get?_eq_some_iff _ _ _).mpr (h _ hm), sameClaim_refl row⟩

theorem mem_of_mem_select {s : DiscordState} {p : String → Request → Bool}
    {e : String × Request} (h : e ∈ s.select p) : e ∈ s.requests.entries := by
  have hm := (List.mem_insertionSort _).mp h
  exact ((Dict.mem_filter _ _ _ _).mp hm).1

theorem copies_unrecorded (s : DiscordState) (after : String) :
    Copies s.requests (s.unrecorded after) :=
  copies_of_mem fun _ hm => mem_of_mem_select (List.mem_of_mem_take hm)

theorem copies_pending (s : DiscordState) : Copies s.requests s.pending :=
  copies_of_mem fun _ hm => mem_of_mem_select (List.mem_of_mem_take hm)

theorem mem_unfinished {s : DiscordState} {id : String}
    (hr : s.requests.get? id = some row) (hp : row.delivery = .pending) :
    (id, row) ∈ s.unfinished := by
  unfold DiscordState.unfinished
  rw [Dict.mem_filter, ← Dict.get?_eq_some_iff]
  exact ⟨hr, by simpa using hp⟩

theorem Inv.recoverClaims (h : c.Inv) (hholder : c.holder.isCancelling = false)
    (purpose : Purpose) :
    (c.recoverClaims purpose).Inv :=
  h.moves rfl rfl rfl rfl (copies_unrecorded c.state c.recoverAfter)
    fun id _ _ _ _ ha => absurd ha (not_awaits hholder id)

variable {holder : Holder}

theorem Inv.withHolder (h : c.Inv) (hholder : c.holder.isCancelling = false)
    (hstanding : ({ c with holder := holder } : Channel).Standing) :
    ({ c with holder := holder } : Channel).Inv :=
  h.moves rfl rfl rfl rfl hstanding fun id _ _ _ _ ha => absurd ha (not_awaits hholder id)

theorem claim_eq_ok {s s' : DiscordState} {id userId channelId prompt : String}
    {guildId : Option String}
    (hc : s.claim env id userId guildId channelId prompt = .ok (true, row, s')) :
    s.requests.get? id = none ∧ s' = { s with requests := s.requests.set id row } ∧
      row.delivery = .pending ∧ s.policy.Fits row ∧
        ∀ id' row', s.requests.get? id' = some row' → row'.taskId ≠ row.taskId := by
  rw [DiscordState.claim] at hc
  obtain ⟨-, hc⟩ := refuse_bind_eq_ok.mp hc
  obtain ⟨hpermitted, hc⟩ := refuse_bind_eq_ok.mp hc
  split at hc
  · obtain ⟨-, hc⟩ := refuse_bind_eq_ok.mp hc
    cases hc
  rename_i hnew
  obtain ⟨-, hc⟩ := refuse_bind_eq_ok.mp hc
  obtain ⟨htask, hc⟩ := refuse_bind_eq_ok.mp hc
  cases hc
  refine ⟨hnew, rfl, rfl, ⟨rfl, by simpa using hpermitted⟩, ?_⟩
  intro id' row' hr he
  exact htask ⟨(id', row'), (Dict.get?_eq_some_iff _ _ _).mp hr, he⟩

theorem Inv.serve (h : c.Inv) (hfree : c.holder = .free) (i : Interaction) :
    (c.serve env i).Inv := by
  have hholder : c.holder.isCancelling = false := by rw [hfree]; rfl
  unfold Channel.serve
  split
  · exact h
  split
  · exact h.withHolder hholder trivial
  split
  · rename_i row s hc
    obtain ⟨hnew, hs, hp, hfits, htask⟩ := claim_eq_ok hc
    cases hs
    have hunadmitted : ∀ e, .admitted i.id e ∉ c.trace := by
      intro e hm
      obtain ⟨row', t, hr, -⟩ := h.books.admitted i.id e hm
      rw [hnew] at hr
      cases hr
    exact {
      inForce := h.inForce.claim hfits
      definition := h.definition
      books := h.books.claim hnew htask hp
      standing := ⟨Dict.get?_set_self _ _ _, hp, hunadmitted⟩
      settled := by
        intro id row' hr hd hu
        change (c.state.requests.set i.id row).get? id = some row' at hr
        rw [Dict.get?_set] at hr
        split at hr
        · cases hr
          exact absurd hp hd
        · exact absurd hu (h.quiet hholder hr hd) }
  · exact h

theorem Inv.admitted (h : c.Inv) {thread : Option String}
    (hc : c.holder = .admitting id row thread) (threadId runId : String)
    (hstanding : ∀ t : Channel, t.holder = holder → t.Standing) :
    ({ (c.admitted id row threadId runId).2 with holder := holder } : Channel).Inv := by
  have hholder : c.holder.isCancelling = false := by rw [hc]; rfl
  have hknown := h.standing
  unfold Standing at hknown
  rw [hc] at hknown
  obtain ⟨hr, hp, hnever⟩ := hknown
  unfold Channel.admitted
  split
  · exact h.withHolder hholder (hstanding _ rfl)
  exact {
    inForce := h.inForce
    definition := h.definition
    books := h.books.admit hr hp hnever _
    standing := hstanding _ rfl
    settled := by
      intro id' row' hr' hd hu
      have hother : row'.taskId ≠ row.taskId := by
        intro he
        have hid := h.books.unique id' id row' row hr' hr he
        rw [hid, hr] at hr'
        cases hr'
        exact hd hp
      obtain ⟨⟨t, ht, hlive⟩, hno⟩ := hu
      rw [Dict.get?_set_of_ne _ _ hother] at ht
      have hold : c.Uncancelled id' row' := ⟨⟨t, ht, hlive⟩, fun hm => hno (by simpa using hm)⟩
      exact absurd hold (h.quiet hholder hr' hd) }

theorem Inv.takeAdmission (h : c.Inv) {thread : Option String}
    (hc : c.holder = .admitting id row thread) {answer : Admission}
    (hn : c.takeAdmission id row thread answer = some t) : t.Inv := by
  have hholder : c.holder.isCancelling = false := by rw [hc]; rfl
  cases answer with
  | accepted runId =>
    cases hn
    exact h.admitted hc _ _ fun t ht => by
      unfold Standing
      rw [ht]
      trivial
  | lost runId =>
    cases hn
    exact h.admitted hc _ _ fun t ht => by
      unfold Standing
      rw [ht]
      trivial
  | targetMissing =>
    obtain ⟨threadId, -, he⟩ := Option.map_eq_some_iff.mp hn
    rw [← he]
    exact h.moves rfl rfl rfl rfl trivial
      fun id _ _ _ _ ha => absurd ha (not_awaits hholder id)

theorem follows_recordRun (trace : List Event) (id interactionId threadId runId : String)
    (row : Request) : Follows id trace row (if id = interactionId then
      (if row.delivery = .pending then
        { row with threadId := some threadId, runId := some runId } else row) else row) := by
  split
  · split
    · rename_i hp
      exact ⟨⟨rfl, rfl, rfl, rfl, rfl⟩, fun h => h, .inl, fun h => h⟩
    · exact follows_refl id trace row
  · exact follows_refl id trace row

theorem Inv.recordRun (h : c.Inv) (hholder : c.holder.isCancelling = false)
    (id threadId runId : String) (hstanding : ({ c with
      state := c.state.recordRun id threadId runId, holder := holder } : Channel).Standing) :
    ({ c with state := c.state.recordRun id threadId runId, holder := holder } : Channel).Inv := by
  refine h.rewrites hholder rfl (fun i => Dict.get?_update_eq_map _ _ _ i)
    (fun i row _ => follows_recordRun c.trace i id threadId runId row) rfl rfl hstanding ?_
  intro i row _ hp hd
  refine absurd ?_ hd
  split
  · simp [hp]
  · exact hp

theorem Inv.mark (h : c.Inv) (hholder : c.holder.isCancelling = false)
    {expected next : Delivery} {messageId : Option String}
    (hallowed : ∀ row, c.state.requests.get? id = some row → row.delivery = expected →
      Follows id c.trace row { row with delivery := next, messageId := messageId } ∧
        (row.delivery = .pending → ¬ c.Uncancelled id row)) (hstanding : ({ c with
      state := (c.state.mark id expected next messageId).2
      holder := holder } : Channel).Standing) :
    ({ c with
      state := (c.state.mark id expected next messageId).2
      holder := holder } : Channel).Inv := by
  refine h.rewrites hholder rfl (fun i => Dict.get?_update_eq_map _ _ _ i) ?_ rfl rfl hstanding ?_
  · intro i row hr
    split
    · rename_i hi
      split
      · rename_i he
        rw [hi] at hr ⊢
        exact (hallowed row hr he).1
      · exact follows_refl i c.trace row
    · exact follows_refl i c.trace row
  · intro i row hr hp hd
    by_cases hi : i = id
    · rw [if_pos hi] at hd
      by_cases he : row.delivery = expected
      · rw [hi] at hr ⊢
        exact (hallowed row hr he).2 hp
      · rw [if_neg he] at hd
        exact absurd hp hd
    · rw [if_neg hi] at hd
      exact absurd hp hd

/-! ### Recovery and delivery -/

theorem getTask_eq_some {taskId : String} {task : Task} (hg : c.getTask taskId = some task) :
    c.tasks.get? taskId = some task := by
  unfold getTask at hg
  exact (Option.filter_eq_some_iff.mp hg).1

theorem Inv.recoverRow (h : c.Inv) {id : String}
    {rest : List (String × Request)} {purpose : Purpose}
    (hc : c.holder = .recovering ((id, row) :: rest) purpose) {answer : Answer}
    (hanswer : answer = .answered → c.getTask row.taskId = none →
      c.tasks.get? row.taskId = none) : (c.recoverRow id row rest purpose answer).Inv := by
  have hholder : c.holder.isCancelling = false := by rw [hc]; rfl
  have hcopies : Copies c.state.requests ((id, row) :: rest) := by
    have hknown := h.standing
    unfold Standing at hknown
    rw [hc] at hknown
    exact hknown
  have hrest := hcopies.tail
  cases answer with
  | unavailable => exact h.withHolder hholder hrest
  | answered =>
    unfold Channel.recoverRow
    dsimp only
    split
    · rename_i hmissing
      have hnone := hanswer rfl hmissing
      -- The runtime never knew the task, so the trace has no admission of the row.
      have hfailing : ∀ row', c.state.requests.get? id = some row' →
          (∀ e, .admitted id e ∉ c.trace) ∧ ¬ c.Uncancelled id row' := by
        intro row' hr'
        obtain ⟨row'', hr'', hsame⟩ := hcopies id row List.mem_cons_self
        have heq : row'' = row' := Option.some.inj (hr''.symm.trans hr')
        rw [heq] at hsame
        constructor
        · intro e hm
          obtain ⟨found, t, hfound, -, ht⟩ := h.books.admitted id e hm
          have hsameRow : found = row' := Option.some.inj (hfound.symm.trans hr')
          rw [hsameRow, hsame.taskId, hnone] at ht
          cases ht
        · rintro ⟨⟨t, ht, -⟩, -⟩
          rw [hsame.taskId, hnone] at ht
          cases ht
      have hmark : ∀ row', c.state.requests.get? id = some row' → row'.delivery = .pending →
          Follows id c.trace row' { row' with delivery := .failed, messageId := none } ∧
            (row'.delivery = .pending → ¬ c.Uncancelled id row') := by
        intro row' hr' hp
        obtain ⟨hnever, hstopped⟩ := hfailing row' hr'
        refine ⟨⟨⟨rfl, rfl, rfl, rfl, rfl⟩, ?_, fun _ => .inr hnever, ?_⟩, fun _ => hstopped⟩
        · intro hsent
          rw [hp] at hsent
          rcases hsent with hs | hs <;> cases hs
        · intro hd
          cases hd
      exact h.mark hholder hmark (hrest.update fun row' => sameClaim_mark row')
    · rename_i task htask
      have hkept : Copies (c.state.recordRun id task.threadId task.runId).requests rest :=
        hrest.update fun row' => sameClaim_recordRun row'
      by_cases hdm : row.guildId = none
      · rw [if_pos hdm]
        exact h.recordRun hholder id task.threadId task.runId hkept
      · rw [if_neg hdm]
        exact h.recordRun hholder id task.threadId task.runId hkept

theorem Inv.attempt (h : c.Inv) (hholder : c.holder.isCancelling = false)
    {row found : Request} (hfound : c.state.requests.get? id = some found)
    (hsame : SameClaim row found) {task : Task} (htask : c.tasks.get? row.taskId = some task)
    (hended : task.status ≠ .live) :
    (if (c.state.mark id .pending .attempted none).1 then
      { c with
        state := (c.state.mark id .pending .attempted none).2
        holder := .posting id false
        trace := .attempted id :: c.trace }
    else
      { c with
        state := (c.state.mark id .pending .attempted none).2
        holder := .free } : Channel).Inv := by
  have hmark : ∀ row', c.state.requests.get? id = some row' → row'.delivery = .pending →
      Follows id c.trace row' { row' with delivery := .attempted, messageId := none } ∧
        (row'.delivery = .pending → ¬ c.Uncancelled id row') := by
    intro row' hr' _
    have heq : row' = found := Option.some.inj (hr'.symm.trans hfound)
    refine ⟨⟨⟨rfl, rfl, rfl, rfl, rfl⟩, fun _ => .inl rfl, ?_, ?_⟩, ?_⟩
    · intro hd
      cases hd
    · intro hd
      cases hd
    · rintro - ⟨⟨t, ht, hlive⟩, -⟩
      rw [heq, hsame.taskId, htask] at ht
      cases ht
      exact hended hlive
  have hmarked : ({ c with
      state := (c.state.mark id .pending .attempted none).2, holder := .free } : Channel).Inv :=
    h.mark hholder hmark trivial
  split
  · rename_i hwas
    have hpending : found.delivery = .pending := by
      unfold DiscordState.mark at hwas
      rw [hfound] at hwas
      simpa using hwas
    have hrow : (c.state.mark id .pending .attempted none).2.requests.get? id =
        some { found with delivery := .attempted, messageId := none } := by
      unfold DiscordState.mark
      dsimp only
      rw [Dict.get?_update, if_pos rfl, hfound, Option.map_some, if_pos hpending]
    have hnever : .attempted id ∉ c.trace := by
      intro hm
      obtain ⟨row', hr', hd⟩ := h.books.attempted id hm
      have heq : row' = found := Option.some.inj (hr'.symm.trans hfound)
      rw [heq, hpending] at hd
      rcases hd with hd | hd <;> cases hd
    have hunposted : c.trace.countP (Event.isPost id) = 0 := by
      rw [List.countP_eq_zero]
      intro e hm hp
      cases e with
      | posted i r p =>
        have hi : i = id := by simpa [Event.isPost] using hp
        rw [hi] at hm
        exact hnever (h.books.posted id r p hm).2
      | admitted i epoch => cases hp
      | attempted i => cases hp
      | rateLimited i => cases hp
      | cancelRequested i => cases hp
    have hfits : c.state.policy.Fits found := h.inForce.pending id found hfound hpending
    exact {
      inForce := hmarked.inForce
      definition := hmarked.definition
      books := hmarked.books.attempt hrow rfl hnever
      standing := by
        refine ⟨⟨_, hrow, hfits⟩, List.mem_cons_self, ?_⟩
        rw [List.countP_cons, hunposted]
        exact Nat.zero_le _
      settled := by
        intro i row' hr' hd hu
        have hold : ({ c with
            state := (c.state.mark id .pending .attempted none).2
            holder := .free } : Channel).Uncancelled i row' :=
          ⟨hu.1, fun hm => hu.2 (List.mem_cons_of_mem _ hm)⟩
        exact absurd hold (hmarked.quiet rfl hr' hd) }
  · exact hmarked

theorem isFenced_of_fits {policy : PolicyRow} {requests : Dict String Request}
    (h : InForce policy requests) (hfits : policy.Fits row) : isFenced policy row = false := by
  have henabled : policy.definition.enabled = true := by
    have hpermitted := hfits.2
    unfold permitted at hpermitted
    simp only [Bool.and_eq_true] at hpermitted
    exact hpermitted.1.1.1.1
  have htoken : policy.botToken.any (· ≠ "") = true := by
    cases ht : policy.botToken with
    | none => exact absurd ht (h.enabled henabled)
    | some token =>
      have hvalid := h.token token ht
      have hne : token ≠ "" := by
        intro he
        rw [he] at hvalid
        revert hvalid
        decide
      simp [hne]
  unfold isFenced
  rw [htoken, hfits.2]
  simp [hfits.1]

/-- A pending request fits the policy, so the loop suppresses nothing. -/
theorem Inv.deliverRow (h : c.Inv) {id : String}
    {rest : List (String × Request)} (hc : c.holder = .delivering ((id, row) :: rest))
    (answer : Answer) : (c.deliverRow id row rest answer).Inv := by
  have hholder : c.holder.isCancelling = false := by rw [hc]; rfl
  have hcopies : Copies c.state.requests ((id, row) :: rest) := by
    have hknown := h.standing
    unfold Standing at hknown
    rw [hc] at hknown
    exact hknown
  have hrest := hcopies.tail
  obtain ⟨found, hfound, hsame⟩ := hcopies id row List.mem_cons_self
  have hleft : ({ c with holder := .delivering rest } : Channel).Inv :=
    h.withHolder hholder hrest
  unfold Channel.deliverRow
  split
  · exact hleft
  split
  · rename_i hfenced
    have hmark : ∀ row', c.state.requests.get? id = some row' → row'.delivery = .pending →
        Follows id c.trace row' { row' with delivery := .suppressed, messageId := none } ∧
          (row'.delivery = .pending → ¬ c.Uncancelled id row') := by
      intro row' hr' hp
      have heq : row' = found := Option.some.inj (hr'.symm.trans hfound)
      rw [heq] at hp
      have hfits := hsame.fits.mp (h.inForce.pending id found hfound hp)
      rw [isFenced_of_fits h.inForce hfits] at hfenced
      cases hfenced
    exact h.mark hholder hmark trivial
  · cases answer with
    | unavailable => exact hleft
    | answered =>
      dsimp only
      split
      · exact hleft
      rename_i task htask
      split
      · exact hleft
      · rename_i hended
        exact h.attempt hholder hfound hsame (getTask_eq_some htask) hended

theorem Uncancelled.of_trace {events : List Event}
    (hu : ({ c with trace := events ++ c.trace } : Channel).Uncancelled id row) :
    c.Uncancelled id row :=
  ⟨hu.1, fun hm => hu.2 (List.mem_append_right events hm)⟩

theorem Inv.takeResponse (h : c.Inv) {again : Bool} (hc : c.holder = .posting id again)
    (hr : c.state.requests.get? id = some row) (response : Response) :
    (c.takeResponse id again row response).Inv := by
  have hholder : c.holder.isCancelling = false := by rw [hc]; rfl
  have hknown := h.standing
  unfold Standing at hknown
  rw [hc] at hknown
  obtain ⟨⟨row', hr', hfits⟩, hattempted, hcount⟩ := hknown
  have heq : row' = row := Option.some.inj (hr'.symm.trans hr)
  rw [heq] at hfits
  have hbooks := h.books.post hfits hattempted hcount
  have hsettled : ∀ events : List Event, ∀ i r, c.state.requests.get? i = some r →
      r.delivery ≠ .pending → ¬ ({ c with trace := events ++ c.trace } : Channel).Uncancelled i r :=
    fun events i r hir hd hu => h.quiet hholder hir hd (Uncancelled.of_trace hu)
  cases response with
  | accepted messageId =>
    exact {
      inForce := h.inForce
      definition := h.definition
      books := hbooks
      standing := by
        unfold Channel.takeResponse
        dsimp only
        by_cases hm : isSnowflake messageId = true
        · rw [if_pos hm]
          trivial
        · rw [if_neg hm]
          trivial
      settled := fun i r hir hd hu =>
        absurd hu (hsettled [.posted id row c.state.policy] i r hir hd) }
  | rateLimited retry =>
    exact {
      inForce := h.inForce
      definition := h.definition
      books := hbooks.report (.inl ⟨id, rfl⟩)
      standing := by
        unfold Channel.takeResponse
        dsimp only
        by_cases hm : (retry && !again) = true
        · rw [if_pos hm]
          refine ⟨⟨row, hr, hfits⟩, ?_, ?_⟩
          · exact List.mem_cons_of_mem _ (List.mem_cons_of_mem _ hattempted)
          · simp only [List.countP_cons, Event.isPost, Event.isRateLimited]
            simpa using hcount
        · rw [if_neg hm]
          trivial
      settled := fun i r hir hd hu =>
        absurd hu (hsettled [.rateLimited id, .posted id row c.state.policy] i r hir hd) }
  | refused =>
    exact {
      inForce := h.inForce
      definition := h.definition
      books := hbooks
      standing := trivial
      settled := fun i r hir hd hu =>
        absurd hu (hsettled [.posted id row c.state.policy] i r hir hd) }

theorem Inv.receipt (h : c.Inv) {id messageId : String} (hc : c.holder = .posted id messageId) :
    ({ c with
      state := (c.state.mark id .attempted .delivered (some messageId)).2
      holder := .free } : Channel).Inv := by
  have hholder : c.holder.isCancelling = false := by rw [hc]; rfl
  have hmark : ∀ row, c.state.requests.get? id = some row → row.delivery = .attempted →
      Follows id c.trace row { row with delivery := .delivered, messageId := some messageId } ∧
        (row.delivery = .pending → ¬ c.Uncancelled id row) := by
    intro row _ ha
    refine ⟨⟨⟨rfl, rfl, rfl, rfl, rfl⟩, fun _ => .inr rfl, ?_, ?_⟩, ?_⟩
    · intro hd
      cases hd
    · intro hd
      cases hd
    · intro hp
      rw [ha] at hp
      cases hp
  exact h.mark hholder hmark trivial

theorem validateConfiguration_eq_ok {s : DiscordState} {definition : List (String × Json)}
    {token : Option String} {clean : Policy}
    (hv : s.validateConfiguration definition token = .ok clean) :
    clean.WellFormed ∧ (∀ t ∈ token, isToken t = true) ∧
      (clean.enabled = true → token.or s.policy.botToken ≠ none) := by
  rw [DiscordState.validateConfiguration] at hv
  obtain ⟨policy, hpolicy, hv⟩ := except_bind_eq_ok.mp hv
  obtain ⟨htoken, hv⟩ := refuse_bind_eq_ok.mp hv
  obtain ⟨hmissing, hv⟩ := refuse_bind_eq_ok.mp hv
  cases hv
  refine ⟨validatePolicy_wellFormed hpolicy, ?_, ?_⟩
  · intro t ht
    by_contra hf
    exact htoken ⟨t, ht, by simpa using hf⟩
  · intro he hnone
    rw [Option.or_eq_none_iff] at hnone
    exact hmissing ⟨he, hnone.1, hnone.2⟩

theorem Inv.configure (h : c.Inv) (hfree : c.holder = .free)
    {definition : List (String × Json)} {token : Option String} {clean : Policy}
    (hv : c.state.validateConfiguration definition token = .ok clean) :
    ({ c.stopGatewayLocked with
      holder := .changing (.configure clean token) c.state.unfinished } : Channel).Inv := by
  have hholder : c.holder.isCancelling = false := by rw [hfree]; rfl
  obtain ⟨hwell, htoken, henabled⟩ := validateConfiguration_eq_ok hv
  refine h.moves rfl rfl rfl rfl ?_ fun id _ _ _ _ ha => absurd ha (not_awaits hholder id)
  refine ⟨fun id row hr hp => mem_unfinished hr hp, ?_⟩
  intro clean' token' he
  cases he
  refine ⟨hwell, ?_, henabled⟩
  intro t ht
  cases htok : token with
  | none =>
    rw [htok] at ht
    exact h.inForce.token t ht
  | some found =>
    rw [htok] at ht
    cases ht
    exact htoken _ (by rw [htok]; rfl)

theorem Inv.revoke (h : c.Inv) (hfree : c.holder = .free) :
    ({ c.stopGatewayLocked with
      holder := .changing .revoke c.state.unfinished } : Channel).Inv := by
  have hholder : c.holder.isCancelling = false := by rw [hfree]; rfl
  refine h.moves rfl rfl rfl rfl ?_ fun id _ _ _ _ ha => absurd ha (not_awaits hholder id)
  refine ⟨fun id row hr hp => mem_unfinished hr hp, ?_⟩
  intro clean token he
  cases he

theorem follows_suppress (id : String) (trace : List Event) (row : Request) :
    Follows id trace row
      (if row.delivery = .pending then { row with delivery := .suppressed } else row) := by
  by_cases hp : row.delivery = .pending
  · rw [if_pos hp]
    refine ⟨⟨rfl, rfl, rfl, rfl, rfl⟩, ?_, ?_, ?_⟩
    · intro hsent
      rw [hp] at hsent
      rcases hsent with hs | hs <;> cases hs
    · intro hd
      cases hd
    · intro hd
      cases hd
  · rw [if_neg hp]
    exact follows_refl id trace row

theorem not_pending_of_suppressed (row : Request) :
    (if row.delivery = .pending then { row with delivery := .suppressed } else row).delivery ≠
      .pending := by
  by_cases hp : row.delivery = .pending
  · rw [if_pos hp]
    intro hd
    cases hd
  · rw [if_neg hp]
    exact hp

theorem Inv.change (h : c.Inv) {policy : PolicyRow} {dmThreads : Dict String (Nat × String)}
    (hepoch : policy.epoch = c.state.policy.epoch + 1) (hwell : policy.definition.WellFormed)
    (htoken : ∀ t, policy.botToken = some t → isToken t = true)
    (henabled : policy.definition.enabled = true → policy.botToken ≠ none)
    (hholder : c.holder.isCancelling = false) {rows : List (String × Request)} (restart : Bool)
    (hrows : ∀ id row, c.state.requests.get? id = some row → row.delivery = .pending →
      (id, row) ∈ rows) (horderly : c.Orderly .commit) :
    ({ c with
      state := ⟨policy, c.state.suppressPending, dmThreads⟩
      holder := .cancelling rows restart } : Channel).Inv := by
  have hget : ∀ id, c.state.suppressPending.get? id = (c.state.requests.get? id).map fun row =>
      if row.delivery = .pending then { row with delivery := .suppressed } else row :=
    fun id => Dict.get?_mapValues _ _ id
  have hold : ∀ {id row'}, c.state.suppressPending.get? id = some row' →
      ∃ row, c.state.requests.get? id = some row ∧
        (if row.delivery = .pending then { row with delivery := .suppressed } else row) = row' := by
    intro id row' hr
    rw [hget] at hr
    exact Option.map_eq_some_iff.mp hr
  exact {
    inForce := {
      pending := by
        intro id row' hr hp
        obtain ⟨row, -, he⟩ := hold hr
        rw [← he] at hp
        exact absurd hp (not_pending_of_suppressed row)
      past := by
        intro id row' hr
        obtain ⟨row, hrow, he⟩ := hold hr
        have hpast := h.inForce.past id row hrow
        have hsame := (follows_suppress id c.trace row).same.epoch
        rw [he] at hsame
        change row'.epoch ≤ policy.epoch
        omega
      token := htoken
      enabled := henabled }
    definition := hwell
    books := h.books.rewrite hget fun id row _ => follows_suppress id c.trace row
    standing := trivial
    settled := by
      intro id row' hr _ hu
      obtain ⟨row, hrow, he⟩ := hold hr
      have hsame := (follows_suppress id c.trace row).same.taskId
      rw [he] at hsame
      have hu' : c.Uncancelled id row := by
        obtain ⟨⟨t, ht, hlive⟩, hno⟩ := hu
        rw [hsame] at ht
        exact ⟨⟨t, ht, hlive⟩, hno⟩
      by_cases hp : row.delivery = .pending
      · exact ⟨rows, restart, row, rfl, hrows id row hrow hp, horderly id row hrow hp hu'⟩
      · exact absurd hu' (h.quiet hholder hrow hp) }

theorem Inv.commitChange (h : c.Inv) {change : Change} {rows : List (String × Request)}
    (hc : c.holder = .changing change rows) (horderly : c.Orderly .commit) :
    (c.commitChange rows change).Inv := by
  have hholder : c.holder.isCancelling = false := by rw [hc]; rfl
  have hknown := h.standing
  unfold Standing at hknown
  rw [hc] at hknown
  obtain ⟨hrows, hclean⟩ := hknown
  cases change with
  | configure clean token =>
    obtain ⟨hwell, htoken, henabled⟩ := hclean clean token rfl
    exact h.change rfl hwell htoken henabled hholder true hrows horderly
  | revoke =>
    refine h.change rfl closed_wellFormed ?_ ?_ hholder false hrows horderly
    · intro t ht
      cases ht
    · intro he
      cases he

/-- A turn of `_cancel_pending`: a request with a receipt is asked for, one without is
passed over. -/
theorem Inv.cancel (h : c.Inv) {rest : List (String × Request)}
    {restart : Bool} (hc : c.holder = .cancelling ((id, row) :: rest) restart) :
    ({ c with
      holder := .cancelling rest restart
      trace := if row.hasRun then .cancelRequested id :: c.trace else c.trace } : Channel).Inv := by
  by_cases hrun : row.hasRun = true
  · rw [if_pos hrun]
    exact {
      inForce := h.inForce
      definition := h.definition
      books := h.books.report (.inr ⟨id, rfl⟩)
      standing := trivial
      settled := by
        intro i r hr hd hu
        have hu' : c.Uncancelled i r := ⟨hu.1, fun hm => hu.2 (List.mem_cons_of_mem _ hm)⟩
        obtain ⟨rows, restart', row', hrows, hm, hrun'⟩ := h.settled i r hr hd hu'
        rw [hc] at hrows
        cases hrows
        rcases List.mem_cons.mp hm with he | hm
        · cases he
          exact absurd List.mem_cons_self hu.2
        · exact ⟨rest, restart, row', rfl, hm, hrun'⟩ }
  · rw [if_neg hrun]
    refine h.moves rfl rfl rfl rfl trivial ?_
    rintro i r - - - ⟨rows, restart', row', hrows, hm, hrun'⟩
    rw [hc] at hrows
    cases hrows
    rcases List.mem_cons.mp hm with he | hm
    · cases he
      exact absurd hrun' hrun
    · exact ⟨rest, restart, row', rfl, hm, hrun'⟩

theorem Inv.proceed (h : c.Inv) (hn : c.proceed = some t) : t.Inv := by
  unfold Channel.proceed at hn
  split at hn
  · rename_i hc
    cases hn
    exact h.withHolder (by rw [hc]; rfl) trivial
  · rename_i hc
    cases hn
    have hholder : c.holder.isCancelling = false := by rw [hc]; rfl
    exact h.moves rfl rfl rfl rfl trivial fun id _ _ _ _ ha => absurd ha (not_awaits hholder id)
  · rename_i hc
    cases hn
    exact h.withHolder (by rw [hc]; rfl) (copies_pending c.state)
  · rename_i hc
    cases hn
    exact h.withHolder (by rw [hc]; rfl) trivial
  · rename_i restart hc
    cases hn
    -- No row is left, so no request waits for its cancellation.
    have hdone : ∀ id, ¬ c.Awaits id := by
      rintro id ⟨rows, restart', row, hrows, hm, -⟩
      rw [hc] at hrows
      cases hrows
      cases hm
    by_cases hrunning : (restart && c.running) = true
    · rw [if_pos hrunning]
      exact h.moves rfl rfl rfl rfl trivial fun id _ _ _ _ ha => absurd ha (hdone id)
    · rw [if_neg hrunning]
      exact h.moves rfl rfl rfl rfl trivial fun id _ _ _ _ ha => absurd ha (hdone id)
  · cases hn

theorem Inv.fault (h : c.Inv) (hn : c.fault = some t) : t.Inv := by
  have hrelease : ∀ polling, c.holder.isCancelling = false →
      ({ c with holder := .free, polling := polling } : Channel).Inv :=
    fun polling hholder => h.moves rfl rfl rfl rfl trivial
      fun id _ _ _ _ ha => absurd ha (not_awaits hholder id)
  unfold Channel.fault at hn
  split at hn
  case h_1 => cases hn
  case h_2 => cases hn
  all_goals
    rename_i hc
    cases hn
    exact hrelease _ (by rw [hc]; rfl)

theorem Inv.dropProcess (h : c.Inv)
    (hstopped : ∀ id row, c.state.requests.get? id = some row → row.delivery ≠ .pending →
      ¬ c.Uncancelled id row) : c.dropProcess.Inv :=
  h.moves rfl rfl rfl rfl trivial fun id row hr hd hu => absurd hu (hstopped id row hr hd)

/-- What the runtime does to a task on its own never brings it back to life. -/
theorem Inv.updateTask (h : c.Inv) (taskId : String) {g : Task → Task}
    (hg : ∀ task, (g task).status = .live → task.status = .live) :
    ({ c with tasks := c.tasks.update taskId g } : Channel).Inv where
  inForce := h.inForce
  definition := h.definition
  books := h.books.updateTask taskId g
  standing := h.standing
  settled id row hr hd hu := by
    obtain ⟨⟨task, ht, hlive⟩, hno⟩ := hu
    have hu' : c.Uncancelled id row := by
      change (c.tasks.update taskId g).get? row.taskId = some task at ht
      rw [Dict.get?_update] at ht
      split at ht
      · obtain ⟨old, hold, he⟩ := Option.map_eq_some_iff.mp ht
        rw [← he] at hlive
        exact ⟨⟨old, hold, hg old hlive⟩, hno⟩
      · exact ⟨⟨task, ht, hlive⟩, hno⟩
    exact h.settled id row hr hd hu'

/-! ### The step lemma -/

theorem Inv.next {step : Step} (h : c.Inv) (ho : c.Orderly step)
    (hn : c.next env step = some t) : t.Inv := by
  have hfree : c.holder = .free → c.holder.isCancelling = false := by
    intro hc
    rw [hc]
    rfl
  -- The same holder, with other process flags.
  have hflags : ∀ t : Channel, t.state = c.state → t.tasks = c.tasks → t.trace = c.trace →
      t.holder = c.holder → t.Inv := by
    intro t hs htasks htrace hc
    refine h.moves (by rw [hs]) (by rw [hs]) htasks htrace ?_ ?_
    · have hknown := h.standing
      unfold Standing at hknown ⊢
      rw [hc, hs, htrace]
      exact hknown
    · intro id row _ _ _ ha
      unfold Awaits
      rw [hc]
      exact ha
  unfold Channel.next at hn
  cases step with
  | start =>
    dsimp only at hn
    rcases Runs.taken hn with ⟨hc, rfl⟩
    have hrunning := hflags { c with running := true } rfl rfl rfl rfl
    exact hrunning.recoverClaims (hfree hc.1) .starting
  | connect =>
    dsimp only at hn
    rcases Runs.taken hn with ⟨_, rfl⟩
    exact hflags _ rfl rfl rfl rfl
  | disconnect =>
    cases hn
    exact hflags _ rfl rfl rfl rfl
  | interact i =>
    dsimp only at hn
    rcases Runs.taken hn with ⟨_, rfl⟩
    exact hflags _ rfl rfl rfl rfl
  | serve i =>
    dsimp only at hn
    rcases Runs.taken hn with ⟨hc, rfl⟩
    have hserved := hflags { c with asking := c.asking.erase i } rfl rfl rfl rfl
    exact hserved.serve hc.1 i
  | admission answer =>
    dsimp only at hn
    split at hn
    · rename_i id row thread hc
      exact h.takeAdmission hc hn
    · cases hn
  | record =>
    dsimp only at hn
    split at hn
    · rename_i id row threadId runId hc
      cases hn
      have hholder : c.holder.isCancelling = false := by rw [hc]; rfl
      by_cases hdm : row.guildId = none
      · rw [if_pos hdm]
        exact h.recordRun hholder id threadId runId trivial
      · rw [if_neg hdm]
        exact h.recordRun hholder id threadId runId trivial
    · cases hn
  | link =>
    dsimp only at hn
    split at hn
    · rename_i userId threadId hc
      cases hn
      have hholder : c.holder.isCancelling = false := by rw [hc]; rfl
      exact h.moves rfl rfl rfl rfl trivial
        fun id _ _ _ _ ha => absurd ha (not_awaits hholder id)
    · cases hn
  | choose answer =>
    dsimp only at hn
    split at hn
    · rename_i id row rest hc
      have hholder : c.holder.isCancelling = false := by rw [hc]; rfl
      split at hn
      · rename_i task htask
        split at hn
        · cases hn
          exact {
            inForce := h.inForce
            definition := h.definition
            books := h.books.report (.inr ⟨id, rfl⟩)
            standing := trivial
            settled := fun i r hr hd hu => by
              have hu' : c.Uncancelled i r :=
                ⟨hu.1, fun hm => hu.2 (List.mem_cons_of_mem _ hm)⟩
              exact absurd hu' (h.quiet hholder hr hd) }
        · cases hn
          exact h.withHolder hholder trivial
      · cases hn
        exact h.withHolder hholder trivial
    · cases hn
  | wake =>
    dsimp only at hn
    rcases Runs.taken hn with ⟨_, rfl⟩
    exact hflags _ rfl rfl rfl rfl
  | poll =>
    dsimp only at hn
    rcases Runs.taken hn with ⟨hc, rfl⟩
    have hwoken := hflags { c with waiting := false } rfl rfl rfl rfl
    exact hwoken.recoverClaims (hfree hc.1) .polling
  | recover answer =>
    dsimp only at hn
    split at hn
    · rename_i id row rest purpose hc
      cases hn
      refine h.recoverRow hc ?_
      intro ha hmissing
      subst ha
      refine ho row ?_ hmissing
      unfold asked
      rw [hc]
    · cases hn
  | relink written =>
    dsimp only at hn
    split at hn
    · rename_i userId threadId rest purpose hc
      cases hn
      have hholder : c.holder.isCancelling = false := by rw [hc]; rfl
      have hcopies : Copies c.state.requests rest := by
        have hknown := h.standing
        unfold Standing at hknown
        rw [hc] at hknown
        exact hknown
      cases written with
      | true =>
        exact h.moves rfl rfl rfl rfl hcopies
          fun id _ _ _ _ ha => absurd ha (not_awaits hholder id)
      | false => exact h.withHolder hholder hcopies
    · cases hn
  | deliver answer =>
    dsimp only at hn
    split at hn
    · rename_i id row rest hc
      cases hn
      exact h.deliverRow hc answer
    · cases hn
  | post response =>
    dsimp only at hn
    split at hn
    · rename_i id again hc
      obtain ⟨row, hr, he⟩ := Option.map_eq_some_iff.mp hn
      rw [← he]
      exact h.takeResponse hc hr response
    · cases hn
  | receipt =>
    dsimp only at hn
    split at hn
    · rename_i id messageId hc
      cases hn
      exact h.receipt hc
    · cases hn
  | configure definition token =>
    dsimp only at hn
    rcases Runs.enabled hn with ⟨hc, hn⟩
    split at hn
    · rename_i clean hv
      cases hn
      exact h.configure hc hv
    · cases hn
      exact h
  | revoke =>
    dsimp only at hn
    rcases Runs.taken hn with ⟨hc, rfl⟩
    exact h.revoke hc
  | commit =>
    dsimp only at hn
    split at hn
    · rename_i change rows hc
      cases hn
      exact h.commitChange hc ho
    · cases hn
  | cancel =>
    dsimp only at hn
    split at hn
    · rename_i id row rest restart hc
      cases hn
      exact h.cancel hc
    · cases hn
  | proceed => exact h.proceed hn
  | fault => exact h.fault hn
  | close =>
    dsimp only at hn
    rcases Runs.taken hn with ⟨hc, rfl⟩
    exact h.dropProcess fun id row hr hd => h.quiet (hfree hc) hr hd
  | crash =>
    cases hn
    exact h.dropProcess ho
  | taskEnds taskId status =>
    dsimp only at hn
    split at hn
    · cases hn
    rename_i hlive
    cases hn
    refine h.updateTask taskId ?_
    intro task ht
    split at ht
    · exact absurd ht hlive
    · exact ht
  | forget taskId =>
    cases hn
    refine h.updateTask taskId ?_
    intro task ht
    split at ht
    · exact ht
    · exact ht

end

/-- The run lemma: in every run of orderly steps the requests are fenced. -/
theorem run_fenced (env : Settings) {steps : List Step} {c : Channel}
    (hm : Runs.Meets (Channel.next env) Orderly initial steps)
    (h : Runs.exec (Channel.next env) initial steps = some c) : c.Fenced := by
  have hinv : c.Inv := Runs.invariant_of_meets (I := Inv)
    (fun _ _ _ hi ho hn => hi.next ho hn) inv_initial hm h
  exact hinv.fenced

def plainSettings : Settings where
  digest prompt := prompt
  taskIdFor interactionId := "discord-interaction:" ++ interactionId

def privatePolicy : List (String × Json) :=
  [("enabled", .bool true), ("dm_user_ids", .arr [.str "10000000000000001"]), ("guilds", .arr [])]

def openChannel : List Step :=
  [.start, .proceed, .configure privatePolicy (some "bot-token-bot-token-bot-token-bot"), .commit,
    .proceed, .connect]

def privateRequest (id : String) : Interaction :=
  ⟨id, "10000000000000001", false, none, "30000000000000003", true, .codex "hello"⟩

def ask (id : String) (answer : Admission) : List Step :=
  [.interact (privateRequest id), .serve (privateRequest id), .admission answer]

def deliverFirst : List Step :=
  ask "20000000000000001" (.accepted "run_1") ++
    [.record, .link, .taskEnds "discord-interaction:20000000000000001" .completed, .wake, .poll,
      .proceed, .deliver .answered, .post (.accepted "40000000000000004"), .receipt]

def stopSecond : List Step :=
  ask "20000000000000002" (.accepted "run_2") ++ [.record, .link, .revoke, .commit, .cancel]

/-- The task is admitted, but its receipt is not written before the policy goes. -/
def stopWithoutReceipt : List Step :=
  ask "20000000000000001" (.lost "run_1") ++ [.revoke, .commit, .cancel]

theorem run_fenced_delivery :
    (Runs.exec (Channel.next plainSettings) initial
      (openChannel ++ deliverFirst ++ stopSecond)).isSome ∧
    ∀ c, Runs.exec (Channel.next plainSettings) initial
      (openChannel ++ deliverFirst ++ stopSecond) = some c → c.Fenced :=
  ⟨by decide +kernel, fun _ h => run_fenced plainSettings (by decide +kernel) h⟩

/-- `revoke` returns, the task of the last epoch runs, and nobody asked to cancel it. -/
theorem uncancelled_after_revoke :
    ∃ c, Runs.exec (Channel.next plainSettings) initial
      (openChannel ++ stopWithoutReceipt) = some c ∧ ¬ c.Fenced := by
  have hrun : (Runs.exec (Channel.next plainSettings) initial
      (openChannel ++ stopWithoutReceipt)).map (fun c => decide (
        c.holder = .cancelling [] false ∧ c.state.policy.epoch = 2 ∧
          .admitted "20000000000000001" 1 ∈ c.trace ∧
            ∃ row ∈ c.state.requests.get? "20000000000000001",
              c.Uncancelled "20000000000000001" row)) = some true := by
    decide +kernel
  obtain ⟨c, hc, hstate⟩ := Option.map_eq_some_iff.mp hrun
  obtain ⟨hholder, hepoch, hadmitted, row, hrow, huncancelled⟩ := of_decide_eq_true hstate
  refine ⟨c, hc, ?_⟩
  intro h
  have hearlier : 1 < c.state.policy.epoch := by omega
  exact h.cancelled false hholder _ 1 row hadmitted hearlier hrow huncancelled

end Channel

end CodexBridge.Discord
