import CodexBridge.Browser.Slot
import CodexBridge.Library.Runs

/-! # Browser session isolation

What every run of the broker keeps, by one lemma for each step. A session that is taken while
its request is still on its way breaks it, because the request starts a process that nobody
stops.
-/

namespace CodexBridge.Browser

/-! ## What must hold -/

def Event.Sound : Event → Prop
  | .started _ owner registered => registered = some owner
  | .stopped id registered => ∀ other ∈ registered, other = id
  | .crossed _ _ => False
  | .returned _ owner registered => registered = some owner

namespace World

structure Isolated (w : World) : Prop where
  started : ∀ id owner registered, .started id owner registered ∈ w.trace → registered = some owner
  /-- A close stops no process while another session is registered. -/
  stopped : ∀ id registered, .stopped id registered ∈ w.trace → ∀ other ∈ registered, other = id
  /-- No call takes the reply to another session's action for its own. -/
  crossed : ∀ id other, .crossed id other ∉ w.trace
  returned : ∀ id owner registered, .returned id owner registered ∈ w.trace →
    registered = some owner
  /-- A live page belongs to a registered session, or some call is about to end it. -/
  live : ∀ p q page, w.processes.get? p = some q → q.alive = true → q.page = some page →
    w.Registered page.sessionId ∨ ∃ c call, w.calls.get? c = some call ∧
      (call.stage.guards = some page.sessionId ∨ call.stage.dooms = some p)
  idle : w.calls.entries = [] → ∀ p q page, w.processes.get? p = some q → q.alive = true →
    q.page = some page → w.Registered page.sessionId

/-- An invocation has reserved the session and not yet written its request. -/
def unsentFor (w : World) (id : String) : Bool :=
  w.calls.entries.any fun e => e.2.stage.unsent = some id

/-- No session is taken before the request of its invocation is written, and none is opened
beside another. -/
def Timely (w : World) : Step → Bool
  | .closeOwner _ owner =>
    w.sessions.entries.all fun e => e.2.owner ≠ owner || !w.unsentFor e.1
  | .close _ => w.sessions.entries.all fun e => !w.unsentFor e.1
  | .expire _ now => w.closed || w.sessions.entries.all fun e =>
    !e.2.expired w.limits.sessionTtl now || !w.unsentFor e.1
  | .accept c _ _ =>
    match w.calls.get? c with
    | some call => call.tool ≠ .openPage || w.sessions.size = 0 ||
        w.sessions.size ≥ w.limits.maxSessions
    | none => true
  | _ => true

theorem unsentFor_eq_false {w : World} {id : String} (h : w.unsentFor id = false) {c : Nat}
    {call : Call} (hc : w.calls.get? c = some call) : call.stage.unsent ≠ some id := by
  intro hu
  unfold unsentFor at h
  rw [List.any_eq_false] at h
  have hno := h (c, call) ((Dict.get?_eq_some_iff _ _ _).mp hc)
  simp [hu] at hno

structure Inv (w : World) : Prop where
  books : w.Books
  fleet : w.Fleet
  sound : ∀ e ∈ w.trace, e.Sound

theorem Inv.isolated {w : World} (h : w.Inv) : w.Isolated := by
  have hlive : ∀ p q page, w.processes.get? p = some q → q.alive = true →
      q.page = some page → w.Registered page.sessionId ∨ ∃ c call, w.calls.get? c = some call ∧
        (call.stage.guards = some page.sessionId ∨ call.stage.dooms = some p) := by
    intro p q page hq ha hp
    rw [(h.fleet.own p q hq).1 page hp]
    cases h.fleet.stray p q hq ha with
    | inl hcur =>
      obtain ⟨q', hq', hg⟩ := h.fleet.current p hcur
      rw [hq] at hq'
      cases hq'
      cases hg with
      | inl hr => exact Or.inl hr
      | inr hg =>
        obtain ⟨c, call, hc, hg⟩ := hg
        exact Or.inr ⟨c, call, hc, Or.inl hg⟩
    | inr hd =>
      obtain ⟨c, call, hc, hd⟩ := hd
      exact Or.inr ⟨c, call, hc, Or.inr hd⟩
  refine ⟨fun id owner registered hm => h.sound _ hm, fun id registered hm => h.sound _ hm,
    fun id other hm => h.sound _ hm, fun id owner registered hm => h.sound _ hm, hlive, ?_⟩
  intro hempty p q page hq ha hp
  cases hlive p q page hq ha hp with
  | inl hr => exact hr
  | inr hc =>
    obtain ⟨c, call, hc, _⟩ := hc
    have hm := (w.calls.get?_eq_some_iff c call).mp hc
    rw [hempty] at hm
    cases hm

theorem inv_initial (limits : Limits) : (initial limits).Inv where
  books := {
    slot := Nat.zero_le 1
    closes := fun c call id rest hc => by cases hc
    closer := fun c c' call call' x y hc => by cases hc
    unsent := fun c call id hc => by cases hc
    held := fun c call id s hc => by cases hc
    once := fun c c' call call' id hc => by cases hc
    registered := fun id s hs => by cases hs
    active := fun c call id hc => by cases hc }
  fleet := {
    uses := fun c call id p hc => by cases hc
    own := fun p q hq => by cases hq
    current := fun p hp => by cases hp
    stray := fun p q hq => by cases hq
    bound := fun p q hq => by cases hq }
  sound e he := by cases he

section

variable {w t : World} {c : Nat} {call : Call} {id : String}

theorem Inv.record (h : w.Inv) {e : Event} (he : e.Sound) : (w.record e).Inv where
  books := ⟨h.books.slot, h.books.closes, h.books.closer, h.books.unsent, h.books.held,
    h.books.once, h.books.registered, h.books.active⟩
  fleet := ⟨h.fleet.uses, h.fleet.own, h.fleet.current, h.fleet.stray, h.fleet.bound⟩
  sound e' hm := by
    rcases List.mem_cons.mp hm with hm | hm
    · rw [hm]
      exact he
    · exact h.sound e' hm

/-- The registry and the calls do not see the processes. -/
theorem Inv.withFleet (h : w.Inv) (hsessions : t.sessions = w.sessions)
    (htearing : t.tearingDown = w.tearingDown) (hcalls : t.calls = w.calls)
    (hdrawn : t.drawn = w.drawn) (htrace : t.trace = w.trace) (hfleet : t.Fleet) : t.Inv where
  books := by
    have hmoved : CallChanges w t 0 (w.calls.get? 0) := by
      intro c'
      rw [hcalls]
      split
      · rename_i he
        rw [he]
      · rfl
    exact h.books.move hmoved hsessions htearing hdrawn
      (fun n x hn hx => ⟨n, hn, hx⟩) (fun n id hn hu => ⟨n, hn, hu⟩)
      (fun n id hn ha => ⟨n, hn, ha, rfl⟩)
  fleet := hfleet
  sound := by
    rw [htrace]
    exact h.sound

/-- A call moves on without taking anything up. -/
theorem Inv.stage (h : w.Inv) (hc : w.calls.get? c = some call) (stage : Stage)
    (hguards : call.stage.guards = none) (hdooms : ∀ p, call.stage.dooms = some p →
      ∀ q, w.processes.get? p = some q → q.alive = false)
    (hcloses : ∀ x, stage.closes = some x → call.stage.closes = some x)
    (hunsent : ∀ id, stage.unsent = some id → call.stage.unsent = some id)
    (hactive : ∀ id, stage.active = some id → call.stage.active = some id)
    (huses : ∀ id p, stage.uses = some (id, p) →
      ∃ q, w.processes.get? p = some q ∧ q.startedFor = id) : (w.setStage c call stage).Inv where
  books := h.books.move (callChanges_setStage w c call stage) rfl rfl rfl
    (fun n x hn hx => by cases hn; exact ⟨call, hc, hcloses x hx⟩)
    (fun n id hn hu => by cases hn; exact ⟨call, hc, hunsent id hu⟩)
    (fun n id hn ha => by cases hn; exact ⟨call, hc, hactive id ha, rfl⟩)
  fleet := by
    refine h.fleet.change (callChanges_setStage w c call stage) rfl rfl rfl ?_ ?_ ?_
    · intro n id p hn hu
      cases hn
      exact huses id p hu
    · intro p id _ hg
      refine hg.change (callChanges_setStage w c call stage) (fun hr => Or.inl hr) ?_
      intro call' hc'
      rw [hc] at hc'
      cases hc'
      rw [hguards]
      exact fun hn => by cases hn
    · intro call' p hc' hd
      rw [hc] at hc'
      cases hc'
      exact hdooms p hd
  sound := h.sound

/-- The call acts for a session that it neither closes nor takes a process from. -/
structure Serves (stage : Stage) (id : String) : Prop where
  active : stage.active = some id
  guards : stage.guards = none
  dooms : stage.dooms = none

theorem Serves.free (h : Serves call.stage id) (hc : w.calls.get? c = some call) :
    w.Free c :=
  .of_call hc ⟨h.guards, h.dooms⟩

/-- A call that has a session goes on to a stage that has no more than it. -/
theorem Inv.goes (h : w.Inv) (hc : w.calls.get? c = some call) {stage : Stage}
    (hserves : Serves call.stage id) (hcloses : stage.closes = none)
    (hunsent : stage.unsent = none) (hact : stage.active = some id)
    (huses : ∀ x, stage.uses = some x → call.stage.uses = some x) :
    (w.setStage c call stage).Inv := by
  refine h.stage hc stage hserves.guards ?_ ?_ ?_ ?_ ?_
  · intro p hd
    rw [hserves.dooms] at hd
    cases hd
  · intro x hx
    rw [hcloses] at hx
    cases hx
  · intro id' hu
    rw [hunsent] at hu
    cases hu
  · intro id' ha
    rw [hserves.active, ← hact]
    exact ha
  · exact fun id' p hu => h.fleet.uses c call id' p hc (huses _ hu)

theorem Inv.ends (h : w.Inv) (hfree : w.Free c) : (w.endCall c).Inv where
  books := h.books.move (callChanges_endCall w c) rfl rfl rfl
    (fun n x hn => by cases hn) (fun n id hn => by cases hn) (fun n id hn => by cases hn)
  fleet := h.fleet.free hfree (callChanges_endCall w c) rfl rfl rfl
    (fun n id p hn => by cases hn) (fun id hr => Or.inl hr)
  sound := h.sound

/-- A new call has no part in anything yet. -/
theorem Inv.begins (h : w.Inv) (hc : w.calls.get? c = none) (call : Call) :
    (w.setStage c call .expiring).Inv where
  books := h.books.move (callChanges_setStage w c call .expiring) rfl rfl rfl
    (fun n x hn hx => by cases hn; cases hx) (fun n id hn hu => by cases hn; cases hu)
    (fun n id hn ha => by cases hn; cases ha)
  fleet := h.fleet.free (.of_none hc) (callChanges_setStage w c call .expiring) rfl rfl rfl
    (fun n id p hn hu => by cases hn; cases hu) (fun id hr => Or.inl hr)
  sound := h.sound

/-! ## Taking a session -/

theorem takeSessions_nil (w : World) : w.takeSessions [] = w := by
  have hsessions : (w.sessions.filter fun id _ => !([] : List String).contains id) =
      w.sessions := by
    cases w.sessions with
    | mk entries nodup => simp [Dict.filter]
  unfold takeSessions
  rw [hsessions, List.append_nil]

theorem Inv.takes (h : w.Inv) {s : Session} (hs : w.sessions.get? id = some s)
    (call : Call) (after : After) (hfree : w.Free c)
    (hunsent : ∀ c' call', c' ≠ c → w.calls.get? c' = some call' → call'.stage.unsent ≠ some id) :
    ((w.takeSessions [id]).closeSessions c call [id] after).Inv := by
  have hget : ∀ id', ((w.takeSessions [id]).closeSessions c call [id] after).sessions.get? id' =
      if id' = id then none else w.sessions.get? id' := by
    intro id'
    show (w.sessions.filter fun k _ => !([id].contains k)).get? id' = _
    rw [Dict.get?_filter]
    by_cases hid : id' = id
    · rw [if_pos hid, hid]
      cases w.sessions.get? id with
      | none => rfl
      | some s => simp
    · rw [if_neg hid]
      cases w.sessions.get? id' with
      | none => rfl
      | some s => simp [hid]
  have hempty : ∀ id', ((w.takeSessions [id]).closeSessions c call [id] after).sessions.get? id' =
      none := by
    intro id'
    rw [hget]
    by_cases hid : id' = id
    · rw [if_pos hid]
    rw [if_neg hid]
    cases hs' : w.sessions.get? id' with
    | none => rfl
    | some s' => exact absurd ((h.books.alone hs).2 id' s' hs') hid
  have htearing : w.tearingDown ++ [id] = [id] := by
    rw [(h.books.alone hs).1]
    rfl
  have hcalls : CallChanges w ((w.takeSessions [id]).closeSessions c call [id] after) c
      (some { call with stage := .closing .stopping id [] after }) :=
    fun c' => Dict.get?_set _ _ _ _
  refine ⟨h.books.take hs hcalls hget (Dict.size_eq_zero_of_forall _ hempty) htearing rfl hunsent,
    ?_, h.sound⟩
  refine h.fleet.free hfree hcalls rfl rfl rfl ?_ ?_
  · intro n id' p hn hu
    cases hn
    cases hu
  · intro id' hr
    obtain ⟨s', hs'⟩ := hr
    have hid := (h.books.alone hs).2 id' s' hs'
    refine Or.inr ⟨c, { call with stage := .closing .stopping id [] after }, ?_, ?_⟩
    · rw [hcalls c, if_pos rfl]
    · rw [hid]
      rfl

theorem Books.sessionsWith_cases (h : w.Books) (p : Session → Bool) :
    w.sessionsWith p = [] ∨
      ∃ id s, w.sessionsWith p = [id] ∧ w.sessions.get? id = some s ∧ p s = true := by
  have hlen : (w.sessionsWith p).length ≤ 1 := by
    have hfilter : (w.sessionsWith p).length ≤ w.sessions.size := by
      unfold sessionsWith Dict.keys
      rw [List.length_map]
      exact List.length_filter_le _ _
    have hslot := h.slot
    omega
  cases hids : w.sessionsWith p with
  | nil => exact Or.inl rfl
  | cons id rest =>
    rw [hids, List.length_cons] at hlen
    have hrest : rest = [] := List.eq_nil_of_length_eq_zero (by omega)
    have hmem : id ∈ (w.sessions.filter fun _ s => p s).keys := by
      show id ∈ w.sessionsWith p
      rw [hids]
      exact List.mem_cons_self
    obtain ⟨s, hs⟩ := (Dict.mem_keys_iff _ _).mp hmem
    obtain ⟨hs, hp⟩ := (Dict.get?_filter_eq_some_iff _ _ _ _).mp hs
    exact Or.inr ⟨id, s, by rw [hrest], hs, hp⟩

theorem all_unsentFor {p : Session → Bool}
    (hall : (w.sessions.entries.all fun e => !p e.2 || !w.unsentFor e.1) = true)
    {s : Session} (hs : w.sessions.get? id = some s) (hp : p s = true) :
    w.unsentFor id = false := by
  rw [List.all_eq_true] at hall
  have hmem := (Dict.get?_eq_some_iff _ _ _).mp hs
  have hone := hall (id, s) hmem
  simpa [hp] using hone

theorem Inv.takeAll (h : w.Inv) (hc : w.calls.get? c = none) (call : Call) (p : Session → Bool)
    (hall : (w.sessions.entries.all fun e => !p e.2 || !w.unsentFor e.1) = true) :
    (w.takeAll c call p).Inv := by
  unfold World.takeAll
  dsimp only
  rcases h.books.sessionsWith_cases p with hids | ⟨id, s, hids, hs, hp⟩
  · rw [hids, takeSessions_nil]
    exact h.ends (.of_none hc)
  · rw [hids]
    refine h.takes hs call .nothing (.of_none hc) ?_
    intro c' call' _ hc'
    exact unsentFor_eq_false (all_unsentFor hall hs hp) hc'

theorem Inv.expire (h : w.Inv) (hc : w.calls.get? c = some call) (hstage : call.stage = .expiring)
    (now : Int) (hall : w.closed = true ∨ (w.sessions.entries.all fun e =>
      !e.2.expired w.limits.sessionTtl now || !w.unsentFor e.1) = true) :
    (w.expire c call now).Inv := by
  have hidle : call.stage.guards = none ∧ call.stage.dooms = none := by
    rw [hstage]
    exact ⟨rfl, rfl⟩
  have hfree : w.Free c := .of_call hc hidle
  unfold World.expire
  split
  · exact h.ends hfree
  rename_i hopen
  have hall := hall.resolve_left (fun hclosed => hopen hclosed)
  dsimp only
  rcases h.books.sessionsWith_cases (fun s => s.expired w.limits.sessionTtl now) with
    hids | ⟨id, s, hids, hs, hp⟩
  · rw [hids, if_pos rfl]
    refine h.stage hc .admitting hidle.1 ?_ (fun x hx => by cases hx) (fun id hu => by cases hu)
      (fun id ha => by cases ha) (fun id p hu => by cases hu)
    intro p hd
    rw [hidle.2] at hd
    cases hd
  rw [hids, if_neg (fun hn => by cases hn)]
  refine h.takes hs call .loop hfree ?_
  intro c' call' _ hc'
  exact unsentFor_eq_false
    (all_unsentFor (p := fun s => s.expired w.limits.sessionTtl now) hall hs hp) hc'

theorem Books.idle_unsent (h : w.Books) {s : Session}
    (hs : w.sessions.get? id = some s) (hfree : s.busy = false) {c' : Nat} {call' : Call}
    (hc' : w.calls.get? c' = some call') : call'.stage.unsent ≠ some id := by
  intro hu
  have hb := (h.held c' call' id s hc' (Stage.active_of_unsent hu) hs).1
  rw [hfree] at hb
  cases hb

/-- No process is the client's while no session is registered and none is being closed. -/
theorem Inv.no_process (h : w.Inv) (hempty : ∀ id, w.sessions.get? id = none)
    (htear : w.tearingDown = []) : w.process = none := by
  cases hp : w.process with
  | none => rfl
  | some p =>
    obtain ⟨q, _, hg⟩ := h.fleet.current p hp
    cases hg with
    | inl hr =>
      obtain ⟨s, hs⟩ := hr
      rw [hempty] at hs
      cases hs
    | inr hg =>
      obtain ⟨c', call', hc', hg⟩ := hg
      obtain ⟨rest, hx⟩ := Stage.closes_of_guards hg
      have ht := (h.books.closes c' call' _ rest hc' hx).2
      rw [htear] at ht
      cases ht

theorem Inv.accept (h : w.Inv) (hc : w.calls.get? c = some call) (hstage : call.stage = .admitting)
    (now : Int) (drawn : String) (hdrawn : drawn ∉ w.drawn)
    (htimely : call.tool ≠ .openPage ∨ w.sessions.size = 0 ∨
      w.sessions.size ≥ w.limits.maxSessions) : (w.accept c call now drawn).Inv := by
  have hfree : w.Free c := .of_call hc (by rw [hstage]; exact ⟨rfl, rfl⟩)
  have hend : (w.endCall c).Inv := h.ends hfree
  unfold World.accept
  split
  · exact hend
  split
  · rename_i hopen
    split
    · exact hend
    rename_i htear
    have htear : w.tearingDown = [] := Classical.not_not.mp htear
    split
    · exact hend
    rename_i hroom
    have hempty : w.sessions.size = 0 := by
      rcases htimely with ht | ht | ht
      · exact absurd hopen ht
      · exact ht
      · exact absurd ht hroom
    have hnone : ∀ id, w.sessions.get? id = none := by
      intro id
      cases hs : w.sessions.get? id with
      | none => rfl
      | some s =>
        have hpos := size_pos_of_get? hs
        omega
    have hcalls : CallChanges w ((({ w with drawn := drawn :: w.drawn } : World).setSession
        drawn ⟨call.owner, now, now, 1, true⟩).setStage c call (.executing drawn)) c
        (some { call with stage := .executing drawn }) := fun c' => Dict.get?_set _ _ _ _
    refine ⟨h.books.opens hdrawn hempty htear hcalls rfl rfl rfl rfl rfl, ?_, h.sound⟩
    refine h.fleet.change hcalls rfl rfl rfl ?_ ?_ ?_
    · intro n id p hn hu
      cases hn
      cases hu
    · intro p id hp
      rw [h.no_process hnone htear] at hp
      cases hp
    · intro call' p hc' hd
      rw [(hfree call' hc').2] at hd
      cases hd
  · cases htarget : call.target with
    | none => exact hend
    | some id =>
      dsimp only
      cases hs : w.sessions.get? id with
      | none => exact hend
      | some s =>
        dsimp only
        split
        · exact hend
        rename_i hmay
        have hmay : s.owner = call.owner ∧ s.busy = false := by
          simpa [not_or] using hmay
        have hothers : ∀ c' call', c' ≠ c → w.calls.get? c' = some call' →
            call'.stage.unsent ≠ some id :=
          fun c' call' _ hc' => h.books.idle_unsent hs hmay.2 hc'
        split
        · exact h.takes hs call _ hfree hothers
        split
        · exact h.takes hs call _ hfree hothers
        split
        · exact h.takes hs call _ hfree hothers
        have hcalls : CallChanges w ((w.setSession id { s with
            busy := true
            actionCount := s.actionCount + 1
            lastActionAt := now }).setStage c call (.executing id)) c
            (some { call with stage := .executing id }) :=
          fun c' => Dict.get?_set _ _ _ _
        refine ⟨h.books.reserves hs hmay.2 hcalls rfl rfl rfl rfl hmay.1, ?_,
          h.sound⟩
        refine h.fleet.free hfree hcalls rfl rfl rfl ?_ ?_
        · intro n id' p hn hu
          cases hn
          cases hu
        · intro id' hr
          obtain ⟨s', hs'⟩ := hr
          refine Or.inl ?_
          have hid := (h.books.alone hs).2 id' s' hs'
          rw [hid]
          exact ⟨_, Dict.get?_set_self _ _ _⟩

/-! ## Closing a process -/

/-- What is registered when a live process is taken from the client. -/
theorem Inv.stopped_sound (h : w.Inv) {p : Nat} (hp : w.process = some p)
    (hguarded : ∀ q, w.processes.get? p = some q → w.Guarded q.startedFor → q.startedFor = id) :
    (Event.stopped id w.sessions.keys).Sound := by
  intro other hm
  obtain ⟨s, hs⟩ := (Dict.mem_keys_iff _ _).mp hm
  obtain ⟨q, hq, hg⟩ := h.fleet.current p hp
  have hid := hguarded q hq hg
  cases hg with
  | inl hr =>
    obtain ⟨s', hs'⟩ := hr
    have heq := (h.books.alone hs).2 _ s' hs'
    rw [← heq]
    exact hid
  | inr hg =>
    obtain ⟨c', call', hc', hg⟩ := hg
    obtain ⟨rest, hx⟩ := Stage.closes_of_guards hg
    have ht := (h.books.closes c' call' _ rest hc' hx).2
    rw [(h.books.alone hs).1] at ht
    cases ht

section

variable (h : w.Inv) (hc : w.calls.get? c = some call)

include h hc

/-- The client's process is dropped by a call that goes on to terminate it. -/
theorem Inv.drops (id : String) (stage : Stage)
    (hguarded : ∀ p q, w.process = some p → w.processes.get? p = some q →
      w.Guarded q.startedFor → q.startedFor = id)
    (huses : stage.uses = none) (hunsent : stage.unsent = none)
    (hcloses : ∀ x, stage.closes = some x → call.stage.closes = some x)
    (hactive : ∀ id, stage.active = some id → call.stage.active = some id)
    (hdooms : call.stage.dooms = none) (hnew : ∀ p, w.process = some p → stage.dooms = some p) :
    ((w.dropProcess id).setStage c call stage).Inv := by
  have hbase : ∀ w' : World, w'.sessions = w.sessions → w'.tearingDown = w.tearingDown →
      w'.drawn = w.drawn → w'.calls = w.calls → w'.process = none →
      w'.processes = w.processes → w'.spawned = w.spawned → (∀ e ∈ w'.trace, e.Sound) →
      (w'.setStage c call stage).Inv := by
    intro w' hsessions htearing hdrawn hcalls hprocess hprocesses hspawned hsound
    have hchanges : CallChanges w (w'.setStage c call stage) c
        (some { call with stage := stage }) := by
      intro c'
      show (w'.calls.set c _).get? c' = _
      rw [hcalls]
      exact Dict.get?_set _ _ _ _
    refine ⟨h.books.move hchanges hsessions htearing hdrawn
      (fun n x hn hx => by cases hn; exact ⟨call, hc, hcloses x hx⟩)
      (fun n id hn hu => by cases hn; rw [hunsent] at hu; cases hu)
      (fun n id hn ha => by cases hn; exact ⟨call, hc, hactive id ha, rfl⟩), ?_, hsound⟩
    refine h.fleet.drop hc hchanges hprocess hprocesses hspawned ?_ hdooms ?_
    · intro n hn
      cases hn
      exact huses
    · intro p hp
      exact ⟨_, rfl, hnew p hp⟩
  unfold dropProcess
  dsimp only
  split
  · rename_i hlive
    refine hbase _ rfl rfl rfl rfl rfl rfl rfl ?_
    intro e hm
    rcases List.mem_cons.mp hm with hm | hm
    · rw [hm]
      cases hp : w.process with
      | none =>
        rw [hp] at hlive
        cases hlive
      | some p => exact h.stopped_sound hp fun q hq hg => hguarded p q hp hq hg
    · exact h.sound e hm
  · exact hbase _ rfl rfl rfl rfl rfl rfl rfl h.sound

theorem Inv.guarded_closing {rest : List String} (hx : call.stage.closes = some (id, rest))
    {id' : String} (hg : w.Guarded id') : id' = id := by
  have ht := (h.books.closes c call id rest hc hx).2
  cases hg with
  | inl hr =>
    obtain ⟨s, hs⟩ := hr
    rw [(h.books.alone hs).1] at ht
    cases ht
  | inr hg =>
    obtain ⟨c', call', hc', hg⟩ := hg
    obtain ⟨rest', hx'⟩ := Stage.closes_of_guards hg
    have ht' := (h.books.closes c' call' _ rest' hc' hx').2
    rw [ht] at ht'
    cases ht'
    rfl

theorem Inv.stop (hn : w.stop c call = some t) :
    t.Inv := by
  unfold World.stop at hn
  cases hstage : call.stage with
  | closing phase id rest after =>
    cases phase with
    | stopping =>
      rw [hstage] at hn
      cases hn
      have hx : call.stage.closes = some (id, rest) := by rw [hstage]; rfl
      refine h.drops hc id _ (fun p q _ _ hg => h.guarded_closing hc hx hg) rfl rfl ?_ ?_ ?_ ?_
      · intro x hx'
        rw [hx]
        exact hx'
      · intro id' ha
        cases ha
      · rw [hstage]
        rfl
      · intro p hp
        exact hp
    | _ =>
      rw [hstage] at hn
      cases hn
  | stopping id p =>
    rw [hstage] at hn
    dsimp only at hn
    have hserves : Serves call.stage id := by rw [hstage]; exact ⟨rfl, rfl, rfl⟩
    obtain ⟨q, hq, hfor⟩ := h.fleet.uses c call id p hc (by rw [hstage]; rfl)
    split at hn
    · rename_i hp
      cases hn
      refine h.drops hc id _ ?_ rfl rfl (fun x hx => by cases hx) ?_ (by rw [hstage]; rfl) ?_
      · intro p' q' hp' hq' _
        rw [hp] at hp'
        cases hp'
        rw [hq] at hq'
        cases hq'
        exact hfor
      · intro id' ha
        rw [hserves.active]
        exact ha
      · intro p' hp'
        rw [hp] at hp'
        exact hp'
    · cases hn
      exact h.goes hc hserves rfl rfl rfl fun x hx => by cases hx
  | _ =>
    rw [hstage] at hn
    cases hn

end

theorem Inv.kill (h : w.Inv) (p : Option Nat) : (w.kill p).Inv := by
  cases p with
  | none => exact h
  | some p => exact h.withFleet rfl rfl rfl rfl rfl (h.fleet.kill (some p))

theorem kill_calls (w : World) (p : Option Nat) : (w.kill p).calls = w.calls := by
  cases p with
  | none => rfl
  | some p => rfl

section

variable (h : w.Inv) (hc : w.calls.get? c = some call)

include h hc

theorem Inv.terminate (hn : w.terminate c call = some t) : t.Inv := by
  have hc' : ∀ p, (w.kill p).calls.get? c = some call := by
    intro p
    rw [kill_calls]
    exact hc
  unfold World.terminate at hn
  cases hstage : call.stage with
  | closing phase id rest after =>
    cases phase with
    | terminating p =>
      rw [hstage] at hn
      cases hn
      refine (h.kill p).stage (hc' p) _ (by rw [hstage]; rfl) ?_ ?_ (fun id hu => by cases hu)
        (fun id ha => by cases ha) (fun id p hu => by cases hu)
      · intro p' hd q hq
        rw [hstage] at hd
        exact kill_dead hd hq
      · intro x hx
        rw [hstage]
        exact hx
    | _ =>
      rw [hstage] at hn
      cases hn
  | terminating id p =>
    rw [hstage] at hn
    cases hn
    refine (h.kill p).stage (hc' p) _ (by rw [hstage]; rfl) ?_ (fun x hx => by cases hx)
      (fun id hu => by cases hu) ?_ (fun id p hu => by cases hu)
    · intro p' hd q hq
      rw [hstage] at hd
      exact kill_dead hd hq
    · intro id' ha
      rw [hstage]
      exact ha
  | _ =>
    rw [hstage] at hn
    cases hn

theorem Inv.discard (hn : w.discard c call = some t) : t.Inv := by
  unfold World.discard at hn
  cases hstage : call.stage with
  | closing phase id rest after =>
    cases phase with
    | discarding =>
      rw [hstage] at hn
      cases hn
      have hx : call.stage.closes = some (id, rest) := by rw [hstage]; rfl
      have hfree : w.Free c := .of_call hc (by rw [hstage]; exact ⟨rfl, rfl⟩)
      have hrest := (h.books.closes c call id rest hc hx).1
      have hdone : ∀ (u : World) (new : Option Call), CallChanges w u c new →
          u.sessions = w.sessions → u.tearingDown = w.tearingDown.filter (· ≠ id) →
          u.drawn = w.drawn → u.process = w.process → u.processes = w.processes →
          u.spawned = w.spawned → u.trace = w.trace →
          (∀ n, new = some n → n.stage = .expiring) → u.Inv := by
        intro u new hcalls hsessions htearing hdrawn hprocess hprocesses hspawned htrace hnew
        refine ⟨h.books.discards hc hx hcalls hsessions htearing hdrawn ?_, ?_, ?_⟩
        · intro n hn
          rw [hnew n hn]
          exact ⟨rfl, rfl⟩
        · refine h.fleet.free hfree hcalls hprocess hprocesses hspawned ?_ ?_
          · intro n id' p hn hu
            rw [hnew n hn] at hu
            cases hu
          · intro id' hr
            refine Or.inl ?_
            unfold Registered
            rw [hsessions]
            exact hr
        · rw [htrace]
          exact h.sound
      rw [hrest]
      cases after with
      | loop =>
        refine hdone _ (some { call with stage := .expiring })
          (fun c' => Dict.get?_set _ _ _ _) rfl rfl rfl rfl rfl rfl rfl ?_
        intro n hn
        cases hn
        rfl
      | answer success text =>
        exact hdone _ none (fun c' => Dict.get?_erase _ _ _) rfl rfl rfl rfl rfl rfl rfl
          (fun n hn => by cases hn)
      | nothing =>
        exact hdone _ none (fun c' => Dict.get?_erase _ _ _) rfl rfl rfl rfl rfl rfl rfl
          (fun n hn => by cases hn)
    | _ =>
      rw [hstage] at hn
      cases hn
  | _ =>
    rw [hstage] at hn
    cases hn

/-! ## Using a process -/

theorem Inv.acquire {proven started : Bool}
    (hn : w.acquire c call proven started = some t) : t.Inv := by
  unfold World.acquire at hn
  cases hstage : call.stage with
  | executing id =>
    rw [hstage] at hn
    dsimp only at hn
    have hserves : Serves call.stage id := by rw [hstage]; exact ⟨rfl, rfl, rfl⟩
    have hunsent : call.stage.unsent = some id := by rw [hstage]; rfl
    have hraised : (w.setStage c call (.raised id "Browser worker failed safely.")).Inv :=
      h.goes hc hserves rfl rfl rfl fun x hx => by cases hx
    have hsends : ∀ (u : World) (p : Nat), u.Inv → u.calls.get? c = some call →
        (∃ q, u.processes.get? p = some q ∧ q.startedFor = id) →
        (u.setStage c call (.sending id p)).Inv := by
      intro u p hu huc hq
      refine hu.stage huc _ hserves.guards ?_ (fun x hx => by cases hx) ?_ ?_ ?_
      · intro p hd
        rw [hserves.dooms] at hd
        cases hd
      · intro id' hs
        rw [hunsent]
        exact hs
      · intro id' ha
        rw [hserves.active]
        exact ha
      · intro id' p' hs
        cases hs
        exact hq
    have hr := h.books.unsent c call id hc hunsent
    cases proven with
    | false =>
      cases hn
      exact hraised
    | true =>
      cases hp : w.process.filter w.isAlive with
      | some p =>
        rw [hp] at hn
        cases hn
        have hcur : w.process = some p := (Option.filter_eq_some_iff.mp hp).1
        obtain ⟨q, hq, hg⟩ := h.fleet.current p hcur
        refine hsends w p h hc ⟨q, hq, ?_⟩
        obtain ⟨s, hs⟩ := hr
        cases hg with
        | inl hr' =>
          obtain ⟨s', hs'⟩ := hr'
          exact (h.books.alone hs).2 _ s' hs'
        | inr hg =>
          obtain ⟨c', call', hc', hg⟩ := hg
          obtain ⟨rest, hx⟩ := Stage.closes_of_guards hg
          have ht := (h.books.closes c' call' _ rest hc' hx).2
          rw [(h.books.alone hs).1] at ht
          cases ht
      | none =>
        rw [hp] at hn
        cases started with
        | false =>
          cases hn
          exact hraised
        | true =>
          cases hn
          have hspawn : (w.spawn id).Inv :=
            h.withFleet rfl rfl rfl rfl rfl (h.fleet.spawn hr hp)
          refine hsends (w.spawn id) w.spawned hspawn hc ?_
          exact ⟨⟨true, none, [], id⟩, Dict.get?_set_self _ _ _, rfl⟩
  | _ =>
    rw [hstage] at hn
    cases hn

end

theorem handle_sessionId (r : Request) (o : Outcome) (now : Int) (page : Option Page) :
    (handle r o now page).1.sessionId = r.sessionId := by
  unfold handle
  dsimp only
  split
  · cases page with
    | some p => rfl
    | none => cases o <;> rfl
  cases page with
  | none => rfl
  | some p =>
    dsimp only
    split
    · rfl
    split
    · rfl
    split
    · rfl
    cases o with
    | returned refused => cases refused <;> rfl
    | _ => rfl

theorem handle_page {r : Request} {o : Outcome} {now : Int} {page : Option Page}
    (hpage : ∀ p, page = some p → p.sessionId = r.sessionId) {p : Page}
    (h : (handle r o now page).2 = some p) : p.sessionId = r.sessionId := by
  unfold handle at h
  dsimp only at h
  split at h
  · cases page with
    | some p' => exact hpage p h
    | none =>
      cases o with
      | returned refused =>
        cases h
        rfl
      | _ => cases h
  · cases page with
    | none => cases h
    | some p' =>
      have hp' := hpage p' rfl
      dsimp only at h
      split at h
      · exact hpage p h
      split at h
      · cases h
      split at h
      · cases h
      cases o with
      | returned refused =>
        cases refused with
        | none =>
          cases h
          exact hp'
        | some code =>
          cases h
          exact hp'
      | protocol =>
        cases h
        exact hp'
      | _ => cases h

section

variable (h : w.Inv) (hc : w.calls.get? c = some call)

include h hc

theorem Inv.write {o : Outcome} {now : Int} (hn : w.write c call o now = some t) : t.Inv := by
  unfold World.write at hn
  cases hstage : call.stage with
  | sending id p =>
    rw [hstage] at hn
    dsimp only at hn
    have hserves : Serves call.stage id := by rw [hstage]; exact ⟨rfl, rfl, rfl⟩
    have huses : call.stage.uses = some (id, p) := by rw [hstage]; rfl
    cases hq : w.processes.get? p with
    | none =>
      rw [hq] at hn
      cases hn
    | some q =>
      rw [hq] at hn
      dsimp only at hn
      split at hn
      · cases hn
        exact h.goes hc hserves rfl rfl rfl fun x hx => hx ▸ huses
      cases hn
      obtain ⟨q', hq', hfor⟩ := h.fleet.uses c call id p hc huses
      rw [hq] at hq'
      cases hq'
      have hown := h.fleet.own p q hq
      have htold : (w.setProcess p { q with
          page := (handle ⟨id, call.tool⟩ o now q.page).2
          replies := q.replies ++ [(handle ⟨id, call.tool⟩ o now q.page).1] }).Inv := by
        refine h.withFleet rfl rfl rfl rfl rfl (h.fleet.setProcess hq rfl (fun ha => ha) ?_ ?_)
        · intro page hp
          rw [hfor]
          exact handle_page (fun p' hp' => (hown.1 p' hp').trans hfor) hp
        intro r hr
        rcases List.mem_append.mp hr with hr | hr
        · exact hown.2 r hr
        · rw [List.mem_singleton.mp hr, hfor]
          exact handle_sessionId _ _ _ _
      refine (htold.goes hc hserves rfl rfl rfl fun x hx => hx ▸ huses :
        (setStage _ c call (.reading id p)).Inv).record ?_
      obtain ⟨s, hs⟩ := h.books.unsent c call id hc (by rw [hstage]; rfl)
      show w.ownerOf id = some call.owner
      unfold ownerOf
      rw [hs, Option.map_some, (h.books.held c call id s hc hserves.active hs).2]
  | _ =>
    rw [hstage] at hn
    cases hn

theorem Inv.readLines {lines : Nat} (hn : w.readLines c call lines = some t) : t.Inv := by
  unfold World.readLines at hn
  cases hstage : call.stage with
  | reading id p =>
    rw [hstage] at hn
    dsimp only at hn
    have hserves : Serves call.stage id := by rw [hstage]; exact ⟨rfl, rfl, rfl⟩
    have huses : call.stage.uses = some (id, p) := by rw [hstage]; rfl
    cases hq : w.processes.get? p with
    | none =>
      rw [hq] at hn
      cases hn
    | some q =>
      rw [hq] at hn
      dsimp only at hn
      obtain ⟨q', hq', hfor⟩ := h.fleet.uses c call id p hc huses
      rw [hq] at hq'
      cases hq'
      have hown := h.fleet.own p q hq
      have hnone : (q.replies.take lines).filter (fun r : Response => r.sessionId ≠ id) = [] := by
        rw [List.filter_eq_nil_iff]
        intro r hr
        have hid := (hown.2 r (List.mem_of_mem_take hr)).trans hfor
        simp [hid]
      have hemptied : (w.setProcess p { q with replies := q.replies.drop lines }).Inv := by
        refine h.withFleet rfl rfl rfl rfl rfl (h.fleet.setProcess hq rfl (fun ha => ha) ?_ ?_)
        · exact hown.1
        · intro r hr
          exact hown.2 r (List.mem_of_mem_drop hr)
      rw [hnone] at hn
      split at hn
      · cases hn
      · split at hn
        · cases hn
          exact hemptied.goes hc hserves rfl rfl rfl fun x hx => by cases hx
        · cases hn
          exact hemptied.goes hc hserves rfl rfl rfl fun x hx => by cases hx
      · cases hn
        exact hemptied.goes hc hserves rfl rfl rfl fun x hx => hx ▸ huses
  | _ =>
    rw [hstage] at hn
    cases hn

theorem Inv.fail (hn : w.fail c call = some t) : t.Inv := by
  unfold World.fail at hn
  cases hstage : call.stage with
  | reading id p | sending id p =>
    rw [hstage] at hn
    cases hn
    refine h.goes hc ?_ rfl rfl rfl (fun x hx => ?_) <;> rw [hstage]
    · exact ⟨rfl, rfl, rfl⟩
    · exact hx
  | _ =>
    rw [hstage] at hn
    cases hn

theorem Inv.takesOwn (hserves : Serves call.stage id)
    (hcontains : w.sessions.contains id = true) (after : After) :
    ((w.takeSessions [id]).closeSessions c call [id] after).Inv := by
  obtain ⟨s, hs⟩ := (Dict.contains_iff _ _).mp hcontains
  refine h.takes hs call after (hserves.free hc) ?_
  intro c' call' hne hc' hu
  exact hne (h.books.once c' c call' call id hc' hc (Stage.active_of_unsent hu) hserves.active)

theorem Inv.takeIfCurrent (hn : w.takeIfCurrent c call = some t) : t.Inv := by
  unfold World.takeIfCurrent at hn
  cases hstage : call.stage with
  | raised id text =>
    rw [hstage] at hn
    dsimp only at hn
    have hserves : Serves call.stage id := by rw [hstage]; exact ⟨rfl, rfl, rfl⟩
    split at hn
    · rename_i hcontains
      cases hn
      exact h.takesOwn hc hserves hcontains _
    · cases hn
      exact h.ends (hserves.free hc)
  | _ =>
    rw [hstage] at hn
    cases hn

theorem Inv.frees (hserves : Serves call.stage id) : ((w.setBusy id false).endCall c).Inv := by
  have hcalls : CallChanges w ((w.setBusy id false).endCall c) c none :=
    fun c' => Dict.get?_erase _ _ _
  refine ⟨h.books.frees hc hserves.active hcalls rfl rfl rfl, ?_, h.sound⟩
  refine h.fleet.free (hserves.free hc) hcalls rfl rfl rfl (fun n id p hn => by cases hn) ?_
  intro id' hr
  obtain ⟨s, hs⟩ := hr
  refine Or.inl ⟨if id' = id then { s with busy := false } else s, ?_⟩
  show (w.sessions.update id fun s => { s with busy := false }).get? id' = _
  rw [Dict.get?_update_eq_map, hs]
  rfl

theorem Inv.settle (hn : w.settle c call = some t) : t.Inv := by
  unfold World.settle at hn
  cases hstage : call.stage with
  | answered id reply =>
    rw [hstage] at hn
    dsimp only at hn
    have hserves : Serves call.stage id := by rw [hstage]; exact ⟨rfl, rfl, rfl⟩
    split at hn
    · cases hn
      exact h.ends (hserves.free hc)
    rename_i hcurrent
    have hcontains : w.sessions.contains id = true := by
      have hboth : w.sessions.contains id = true ∧ w.closed = false := by
        simpa using hcurrent
      exact hboth.1
    cases reply with
    | error code =>
      dsimp only at hn
      split at hn
      · cases hn
        exact h.takesOwn hc hserves hcontains _
      · cases hn
        exact h.frees hc hserves
    | ok artifact =>
      cases hn
      exact h.goes hc hserves rfl rfl rfl fun x hx => by cases hx
  | _ =>
    rw [hstage] at hn
    cases hn

theorem Inv.publish {succeeded : Bool} (hn : w.publish c call succeeded = some t) : t.Inv := by
  unfold World.publish at hn
  cases hstage : call.stage with
  | publishing id artifact =>
    rw [hstage] at hn
    dsimp only at hn
    have hserves : Serves call.stage id := by rw [hstage]; exact ⟨rfl, rfl, rfl⟩
    split at hn
    · cases hn
      exact h.goes hc hserves rfl rfl rfl fun x hx => by cases hx
    · cases hn
      exact h.goes hc hserves rfl rfl rfl fun x hx => by cases hx
  | _ =>
    rw [hstage] at hn
    cases hn

theorem Inv.finish (hn : w.finish c call = some t) : t.Inv := by
  unfold World.finish at hn
  cases hstage : call.stage with
  | finishing id =>
    rw [hstage] at hn
    dsimp only at hn
    have hserves : Serves call.stage id := by rw [hstage]; exact ⟨rfl, rfl, rfl⟩
    split at hn
    · cases hn
      exact h.ends (hserves.free hc)
    rename_i hcurrent
    have hcontains : w.sessions.contains id = true ∧ w.closed = false := by
      simpa using hcurrent
    obtain ⟨s, hs⟩ := (Dict.contains_iff _ _).mp hcontains.1
    cases hn
    refine (h.frees hc hserves).record ?_
    show w.ownerOf id = some call.owner
    unfold ownerOf
    rw [hs, Option.map_some, (h.books.held c call id s hc hserves.active hs).2]
  | _ =>
    rw [hstage] at hn
    cases hn

end

theorem within_eq_some {f : Call → Option World} (hn : w.within c f = some t) :
    ∃ call, w.calls.get? c = some call ∧ f call = some t := by
  unfold within at hn
  cases hc : w.calls.get? c with
  | none =>
    rw [hc] at hn
    cases hn
  | some call =>
    rw [hc] at hn
    exact ⟨call, rfl, hn⟩

theorem get?_eq_none_of_contains {κ α : Type} [DecidableEq κ] {d : Dict κ α} {k : κ}
    (h : ¬ d.contains k = true) : d.get? k = none := by
  cases hg : d.get? k with
  | none => rfl
  | some v => exact absurd ((Dict.contains_iff _ _).mpr ⟨v, hg⟩) h

theorem Inv.next (h : w.Inv) {s : Step} (htimely : w.Timely s = true)
    (hn : w.next s = some t) : t.Inv := by
  cases s with
  | invoke c owner tool target =>
    rcases Option.ite_none_left_eq_some.mp hn with ⟨hnew, hn⟩
    cases hn
    exact h.begins (get?_eq_none_of_contains hnew) _
  | closeOwner c owner =>
    rcases Option.ite_none_left_eq_some.mp hn with ⟨hnew, hn⟩
    cases hn
    refine h.takeAll (get?_eq_none_of_contains hnew) _ _ ?_
    simpa [Timely] using htimely
  | close c =>
    rcases Option.ite_none_left_eq_some.mp hn with ⟨hnew, hn⟩
    cases hn
    have hnew : ¬ w.calls.contains c = true := fun hcon => hnew (by rw [hcon]; rfl)
    have hclosed : ({ w with closed := true } : World).Inv :=
      h.withFleet rfl rfl rfl rfl rfl
        ⟨h.fleet.uses, h.fleet.own, h.fleet.current, h.fleet.stray, h.fleet.bound⟩
    refine hclosed.takeAll (get?_eq_none_of_contains hnew) _ _ ?_
    have hall : (w.sessions.entries.all fun e => !true || !w.unsentFor e.1) = true := htimely
    exact hall
  | expire c now =>
    obtain ⟨call, hc, hn⟩ := within_eq_some hn
    rcases Runs.taken hn with ⟨hstage, rfl⟩
    refine h.expire hc hstage now ?_
    have hboth : (w.closed || w.sessions.entries.all fun e =>
        !e.2.expired w.limits.sessionTtl now || !w.unsentFor e.1) = true := htimely
    rwa [Bool.or_eq_true] at hboth
  | accept c now drawn =>
    rcases Option.ite_none_left_eq_some.mp hn with ⟨hnew, hn⟩
    obtain ⟨call, hc, hn⟩ := within_eq_some hn
    rcases Runs.taken hn with ⟨hstage, rfl⟩
    refine h.accept hc hstage now drawn (by simpa using hnew) ?_
    unfold Timely at htimely
    dsimp only at htimely
    rw [hc] at htimely
    simpa [or_assoc] using htimely
  | stop c =>
    obtain ⟨call, hc, hn⟩ := within_eq_some hn
    exact h.stop hc hn
  | terminate c =>
    obtain ⟨call, hc, hn⟩ := within_eq_some hn
    exact h.terminate hc hn
  | discard c =>
    obtain ⟨call, hc, hn⟩ := within_eq_some hn
    exact h.discard hc hn
  | acquire c proven started =>
    obtain ⟨call, hc, hn⟩ := within_eq_some hn
    exact h.acquire hc hn
  | write c o now =>
    obtain ⟨call, hc, hn⟩ := within_eq_some hn
    exact h.write hc hn
  | readLines c lines =>
    obtain ⟨call, hc, hn⟩ := within_eq_some hn
    exact h.readLines hc hn
  | fail c =>
    obtain ⟨call, hc, hn⟩ := within_eq_some hn
    exact h.fail hc hn
  | takeIfCurrent c =>
    obtain ⟨call, hc, hn⟩ := within_eq_some hn
    exact h.takeIfCurrent hc hn
  | settle c =>
    obtain ⟨call, hc, hn⟩ := within_eq_some hn
    exact h.settle hc hn
  | publish c succeeded =>
    obtain ⟨call, hc, hn⟩ := within_eq_some hn
    exact h.publish hc hn
  | finish c =>
    obtain ⟨call, hc, hn⟩ := within_eq_some hn
    exact h.finish hc hn
  | crash p =>
    cases hn
    exact h.kill (some p)

end

/-- In a run in which no session is taken while its request is on its way, and none is opened
beside another, sessions are isolated. -/
theorem run_isolated (limits : Limits) (steps : List Step) (w : World)
    (hmeets : Runs.Meets next (fun w s => w.Timely s = true) (initial limits) steps)
    (hrun : Runs.exec next (initial limits) steps = some w) : w.Isolated := by
  have hinv : w.Inv := Runs.invariant_of_meets (fun _ _ _ h hc hn => Inv.next h hc hn)
    (inv_initial limits) hmeets hrun
  exact hinv.isolated

def single : Limits := ⟨300000, 1, 100⟩

def first : Context := ⟨"run-1", "thread-1", "codex-1", "turn-1", 1⟩

def second : Context := ⟨"run-2", "thread-2", "codex-2", "turn-2", 1⟩

def invocation (c : Nat) (owner : Context) (tool : Tool) (target : Option String) (now : Int)
    (drawn : String) : List Step :=
  [.invoke c owner tool target, .expire c now, .accept c now drawn, .acquire c true true,
    .write c (.returned none) now, .readLines c 1, .settle c, .publish c true, .finish c]

/-- A turn opens a page, takes a picture of it and ends; the next turn opens its own. -/
def twoTurns : List Step :=
  invocation 0 first .openPage none 0 "brs_1" ++
  invocation 1 first .screenshot (some "brs_1") 1 "brs_2" ++
  [.closeOwner 2 first, .stop 2, .terminate 2, .discard 2] ++
  invocation 3 second .openPage none 2 "brs_3"

theorem run_twoTurns :
    (Runs.exec next (initial single) twoTurns).isSome = true ∧
      ∀ w, Runs.exec next (initial single) twoTurns = some w → w.Isolated :=
  ⟨by decide +kernel, fun w h => run_isolated single twoTurns w (by decide +kernel) h⟩

/-- A turn ends after its page was reserved and before the request is written. -/
def lateRequest : List Step :=
  [.invoke 0 first .openPage none, .expire 0 0, .accept 0 0 "brs_1", .closeOwner 1 first, .stop 1,
    .terminate 1, .discard 1, .acquire 0 true true, .write 0 (.returned none) 1,
    .readLines 0 1, .settle 0]

theorem lateRequest_not_isolated :
    ∃ w, Runs.exec next (initial single) lateRequest = some w ∧ ¬ w.Isolated := by
  have htrace : (Runs.exec next (initial single) lateRequest).map World.trace =
      some [.started "brs_1" first none] := by
    decide +kernel
  obtain ⟨w, hw, htw⟩ := Option.map_eq_some_iff.mp htrace
  refine ⟨w, hw, ?_⟩
  intro h
  have hstarted := h.started "brs_1" first none (by rw [htw]; exact List.mem_singleton_self _)
  cases hstarted

end World

end CodexBridge.Browser
