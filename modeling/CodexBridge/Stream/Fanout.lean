import CodexBridge.Stream.Subscriptions

/-! # Nothing is lost silently

What a subscription wants of the events that the broker's cursor has passed is returned or queued,
or the subscription ends with an envelope that says so.
-/

namespace CodexBridge.Stream

open Runs

variable {limits : Limits} {w w' : World} {surviving rest : List EventRecord} {b : EventBatch}

/-! ## All subscriptions -/

def AllOk (passed : List EventRecord) (subs : List Subscription) : Prop :=
  ∀ s ∈ subs, s.Ok passed

def AllComplete (passed : List EventRecord) (subs : List Subscription) : Prop :=
  ∀ s ∈ subs, s.listed = true → ∀ e ∈ passed, s.wants e = true → e ∈ s.events

section

variable {passed : List EventRecord} {subs : List Subscription} {f : Subscription → Subscription}

theorem AllOk.map (hf : ∀ s ∈ subs, (f s).Ok passed) : AllOk passed (subs.map f) := by
  intro s' hs'
  obtain ⟨s, hs, rfl⟩ := List.mem_map.mp hs'
  exact hf s hs

theorem AllComplete.map (hf : ∀ s ∈ subs, (f s).listed = true →
    ∀ e ∈ passed, (f s).wants e = true → e ∈ (f s).events) : AllComplete passed (subs.map f) := by
  intro s' hs'
  obtain ⟨s, hs, rfl⟩ := List.mem_map.mp hs'
  exact hf s hs

theorem AllComplete.of_unlisted (h : ∀ s ∈ subs, s.listed = false) : AllComplete passed subs := by
  intro s hs hlisted
  rw [h s hs] at hlisted
  cases hlisted

end

namespace World

theorem snapshotFor_isClosing (w : World) (s : Subscription) (reason : SnapshotReason) :
    (w.snapshotFor s reason).isClosing = true := by
  unfold snapshotFor
  split
  · rfl
  · rfl

theorem snapshotAll_isClosing (w : World) (reason : SnapshotReason) (problem : Option Problem) :
    (w.snapshotAll reason problem).isClosing = true := by
  unfold snapshotAll
  split
  · rfl
  · rfl

theorem publishSnapshot_ok {envelope : Envelope} (h : AllOk w.passed w.subs)
    (hclosing : envelope.isClosing = true) :
    AllOk w.passed (w.publishSnapshot envelope).subs ∧
      ∀ s ∈ (w.publishSnapshot envelope).subs, s.listed = false := by
  constructor
  · apply AllOk.map
    intro s hs
    split
    · exact ((h s hs).replaceThenClose hclosing).1
    · exact h s hs
  · intro s' hs'
    obtain ⟨s, hs, rfl⟩ := List.mem_map.mp hs'
    split
    · exact ((h s hs).replaceThenClose hclosing).2
    · rename_i hlisted
      exact Bool.eq_false_iff.mpr hlisted

theorem publishEnvelope_ok {envelope : Envelope} (h : AllOk w.passed w.subs)
    (hclosing : envelope.isClosing = false) (hevent : envelope.event? = none) :
    AllOk w.passed (w.publishEnvelope envelope).subs ∧
      (AllComplete w.passed w.subs → AllComplete w.passed (w.publishEnvelope envelope).subs) := by
  have hoffer : ∀ s ∈ w.subs, s.listed = true →
      (s.offer envelope (w.snapshotFor s .subscriberOverflow)).Ok w.passed ∧
        ((s.offer envelope (w.snapshotFor s .subscriberOverflow)).listed = true →
          (s.offer envelope (w.snapshotFor s .subscriberOverflow)).events = s.events) := by
    intro s hs hlisted
    have hnone : ∀ e, envelope.event? = some e →
        s.wants e = true ∧ e ∈ w.passed ∧ ∀ x ∈ s.events, x.cursor < e.cursor := by
      intro e he
      rw [hevent] at he
      cases he
    have hoffered := (h s hs).offer hlisted hclosing
      (w.snapshotFor_isClosing s .subscriberOverflow) hnone
    refine ⟨hoffered.1, fun hl => ?_⟩
    rw [hoffered.2 hl, hevent]
    exact List.append_nil _
  constructor
  · apply AllOk.map
    intro s hs
    split
    · rename_i hopen
      exact (hoffer s hs hopen.1).1
    · exact h s hs
  intro hcomplete
  apply AllComplete.map
  intro s hs
  split
  · rename_i hopen
    intro hl e he hwants
    rw [(hoffer s hs hopen.1).2 hl]
    rw [Subscription.wants_offer] at hwants
    exact hcomplete s hs hopen.1 e he hwants
  · exact hcomplete s hs

theorem setStatus_fields (w : World) (state : StreamState) (phase : StreamPhase)
    (retryCount : Nat) (notify : Bool) :
    (w.setStatus state phase retryCount notify).cursor = w.cursor ∧
      (w.setStatus state phase retryCount notify).history = w.history ∧
      (w.setStatus state phase retryCount notify).passed = w.passed ∧
      (w.setStatus state phase retryCount notify).closed = w.closed := by
  unfold setStatus
  dsimp only
  split
  · split
    · exact ⟨rfl, rfl, rfl, rfl⟩
    · exact ⟨rfl, rfl, rfl, rfl⟩
  · exact ⟨rfl, rfl, rfl, rfl⟩

theorem setStatus_ok (h : AllOk w.passed w.subs) (state : StreamState) (phase : StreamPhase)
    (retryCount : Nat) (notify : Bool) :
    AllOk w.passed (w.setStatus state phase retryCount notify).subs ∧
      (AllComplete w.passed w.subs →
        AllComplete w.passed (w.setStatus state phase retryCount notify).subs) := by
  unfold setStatus
  dsimp only
  split
  · split
    · rename_i hfailure
      have hclosing : (Envelope.status ⟨state, phase, min retryCount 16⟩ w.cursor).isClosing =
          true := hfailure
      have hpublished := publishSnapshot_ok
        (w := { w with status := ⟨state, phase, min retryCount 16⟩ }) h hclosing
      exact ⟨hpublished.1, fun _ => .of_unlisted hpublished.2⟩
    · rename_i hfailure
      have hopen : (Envelope.status ⟨state, phase, min retryCount 16⟩ w.cursor).isClosing =
          false := Bool.eq_false_iff.mpr hfailure
      exact publishEnvelope_ok
        (w := { w with status := ⟨state, phase, min retryCount 16⟩ }) h hopen rfl
  · exact ⟨h, id⟩

structure Base (w : World) : Prop where
  passed_le : ∀ e ∈ w.passed, e.cursor ≤ w.cursor
  history : ∀ e ∈ w.history, e ∈ w.passed
  increasing : w.history.Pairwise fun a b => a.cursor < b.cursor
  covers : ∀ first ∈ w.history, ∀ e ∈ w.passed, first.cursor ≤ e.cursor → e ∈ w.history
  ok : AllOk w.passed w.subs

variable {cursor : Nat}

theorem mem_advance {e : EventRecord} :
    e ∈ (w.advance surviving cursor).passed ↔
      e ∈ w.passed ∨ e ∈ surviving ∧ w.cursor < e.cursor ∧ e.cursor ≤ cursor := by
  show e ∈ w.passed ++ surviving.filter _ ↔ _
  rw [List.mem_append, List.mem_filter, decide_eq_true_iff]

theorem Base.of_subs (h : w.Base) (hcursor : w'.cursor = w.cursor)
    (hhistory : w'.history = w.history) (hpassed : w'.passed = w.passed)
    (hok : AllOk w.passed w'.subs) : w'.Base := by
  constructor
  · rw [hpassed, hcursor]
    exact h.passed_le
  · rw [hhistory, hpassed]
    exact h.history
  · rw [hhistory]
    exact h.increasing
  · rw [hhistory, hpassed]
    exact h.covers
  · rw [hpassed]
    exact hok

theorem Base.jump (h : w.Base) (hle : w.cursor ≤ cursor) :
    (w.advance surviving cursor).clearHistory.Base where
  passed_le := by
    intro e he
    rcases mem_advance.mp he with he | ⟨_, _, hlast⟩
    · exact Nat.le_trans (h.passed_le e he) hle
    · exact hlast
  history := fun _ he => absurd he List.not_mem_nil
  increasing := List.Pairwise.nil
  covers := fun _ hfirst => absurd hfirst List.not_mem_nil
  ok := fun s hs => (h.ok s hs).mono fun e he => mem_advance.mpr (.inl he)

theorem Base.advance (h : w.Base) (hle : w.cursor ≤ cursor)
    (hnone : ∀ e ∈ surviving, w.cursor < e.cursor → ¬ e.cursor ≤ cursor) :
    (w.advance surviving cursor).Base ∧ ∀ e, e ∈ (w.advance surviving cursor).passed ↔
      e ∈ w.passed := by
  have hsame : ∀ e, e ∈ (w.advance surviving cursor).passed ↔ e ∈ w.passed := by
    intro e
    rw [mem_advance]
    constructor
    · intro he
      rcases he with he | ⟨hsurviving, hlt, hlast⟩
      · exact he
      · exact absurd hlast (hnone e hsurviving hlt)
    · exact .inl
  refine ⟨⟨?_, ?_, h.increasing, ?_, ?_⟩, hsame⟩
  · intro e he
    exact Nat.le_trans (h.passed_le e ((hsame e).mp he)) hle
  · exact fun e he => (hsame e).mpr (h.history e he)
  · intro first hfirst e he
    exact h.covers first hfirst e ((hsame e).mp he)
  · exact fun s hs => (h.ok s hs).mono fun e he => (hsame e).mpr he

theorem trimmed_suffix (limits : Limits) (size : Nat) (history : List EventRecord) (bytes : Nat) :
    (trimmed limits size history bytes).1 <:+ history := by
  induction history generalizing bytes with
  | nil => exact List.suffix_refl _
  | cons old rest ih =>
    unfold trimmed
    split
    · exact (ih _).trans (List.suffix_cons old rest)
    · exact List.suffix_refl _

theorem mem_suffix {kept history : List EventRecord} (hsuffix : kept <:+ history)
    (hincreasing : history.Pairwise fun a b => a.cursor < b.cursor) {first e : EventRecord}
    (hfirst : first ∈ kept) (he : e ∈ history) (hle : first.cursor ≤ e.cursor) : e ∈ kept := by
  obtain ⟨cut, rfl⟩ := hsuffix
  rcases List.mem_append.mp he with hin | hin
  · have hbefore := (List.pairwise_append.mp hincreasing).2.2 e hin first hfirst
    omega
  · exact hin

theorem Base.pass (h : w.Base) {e : EventRecord} (hlt : w.cursor < e.cursor) (he : e ∈ surviving)
    (honly : ∀ x ∈ surviving, w.cursor < x.cursor → x.cursor ≤ e.cursor → x = e) :
    ((w.advance surviving e.cursor).appendHistory limits e).Base ∧
      ∀ x, x ∈ ((w.advance surviving e.cursor).appendHistory limits e).passed ↔
        x ∈ w.passed ∨ x = e := by
  have hmem : ∀ x, x ∈ (w.advance surviving e.cursor).passed ↔ x ∈ w.passed ∨ x = e := by
    intro x
    rw [mem_advance]
    constructor
    · intro hx
      rcases hx with hx | ⟨hsurviving, hafter, hle⟩
      · exact .inl hx
      · exact .inr (honly x hsurviving hafter hle)
    · intro hx
      rcases hx with hx | rfl
      · exact .inl hx
      · exact .inr ⟨he, hlt, Nat.le_refl _⟩
  have hle : ∀ x ∈ (w.advance surviving e.cursor).passed, x.cursor ≤ e.cursor := by
    intro x hx
    rcases (hmem x).mp hx with hx | rfl
    · exact Nat.le_of_lt (Nat.lt_of_le_of_lt (h.passed_le x hx) hlt)
    · exact Nat.le_refl _
  have hok : AllOk (w.advance surviving e.cursor).passed w.subs :=
    fun s hs => (h.ok s hs).mono fun x hx => (hmem x).mpr (.inl hx)
  unfold appendHistory
  split
  · exact ⟨⟨hle, fun _ hx => absurd hx List.not_mem_nil, List.Pairwise.nil,
      fun _ hfirst => absurd hfirst List.not_mem_nil, hok⟩, hmem⟩
  have hsuffix : (trimmed limits e.estimatedBytes w.history w.historyBytes).1 <:+ w.history :=
    trimmed_suffix limits e.estimatedBytes w.history w.historyBytes
  have hkept := hsuffix.subset
  refine ⟨⟨hle, ?_, ?_, ?_, hok⟩, hmem⟩
  · intro x hx
    rcases List.mem_append.mp hx with hx | hx
    · exact (hmem x).mpr (.inl (h.history x (hkept hx)))
    · exact (hmem x).mpr (.inr (List.mem_singleton.mp hx))
  · refine List.pairwise_append.mpr
      ⟨h.increasing.sublist hsuffix.sublist, List.pairwise_singleton _ _, ?_⟩
    intro x hx y hy
    rw [List.mem_singleton.mp hy]
    exact Nat.lt_of_le_of_lt (h.passed_le x (h.history x (hkept hx))) hlt
  · intro first hfirst x hx hafter
    rcases (hmem x).mp hx with hbefore | rfl
    · rcases List.mem_append.mp hfirst with hfirst | hfirst
      · apply List.mem_append_left
        have hhistory := h.covers first (hkept hfirst) x hbefore hafter
        exact mem_suffix hsuffix h.increasing hfirst hhistory hafter
      · rw [List.mem_singleton.mp hfirst] at hafter
        have hold := h.passed_le x hbefore
        omega
    · exact List.mem_append_right _ List.mem_cons_self

variable {passed : List EventRecord}

theorem not_ending_of_listed {s : Subscription} (h : s.Ok passed)
    (hlisted : s.listed = true) : s.closeAfterDelivery = false := by
  cases h.standing with
  | active _ _ hending _ _ _ => exact hending
  | ending _ hl _ _ _ _ _ _ | ended _ _ hl _ _ _ _ _ _ | dropped hl _ _ _ _ =>
    rw [hlisted] at hl
    cases hl

theorem offer_stands {s : Subscription} (h : s.Ok passed)
    (hlisted : s.listed = true) (envelope snapshot : Envelope) :
    (s.offer envelope snapshot).listed = true ∨
      (s.offer envelope snapshot).closeAfterDelivery = true := by
  unfold Subscription.offer
  cases hput : s.put? envelope with
  | some s' =>
    left
    show s'.listed = true
    rw [Subscription.put_some hput]
    exact hlisted
  | none =>
    right
    show (s.replaceThenClose snapshot).closeAfterDelivery = true
    have hclosed := h.closed_of_listed hlisted
    have hending := not_ending_of_listed h hlisted
    unfold Subscription.replaceThenClose
    rw [if_neg (by rw [hclosed, hending]; decide)]

theorem foldl_offer (w : World) (events : List EventRecord)
    (s : Subscription) (h : s.Ok passed) (hstands : s.listed = true ∨ s.closeAfterDelivery = true)
    (hevents : s.listed = true → ∀ e ∈ events,
      s.wants e = true ∧ e ∈ passed ∧ ∀ x ∈ s.events, x.cursor < e.cursor)
    (hincreasing : events.Pairwise fun a b => a.cursor < b.cursor) :
    let s' := events.foldl (fun s e => if s.closeAfterDelivery then s
      else s.offer (.event e) (w.snapshotFor s .subscriberOverflow)) s
    s'.Ok passed ∧ (∀ e, s'.wants e = s.wants e) ∧
      (s'.listed = true → s.listed = true ∧ s'.events = s.events ++ events) := by
  induction events generalizing s with
  | nil => exact ⟨h, fun _ => rfl, fun hl => ⟨hl, (List.append_nil _).symm⟩⟩
  | cons e rest ih =>
    obtain ⟨hfirst, hrest⟩ := List.pairwise_cons.mp hincreasing
    cases hending : s.closeAfterDelivery with
    | true =>
      have hunlisted : s.listed ≠ true := by
        intro hl
        rw [not_ending_of_listed h hl] at hending
        cases hending
      have hsame := ih s h hstands (fun hl => absurd hl hunlisted) hrest
      simp only [List.foldl_cons, hending, if_true]
      exact ⟨hsame.1, hsame.2.1, fun hl => absurd (hsame.2.2 hl).1 hunlisted⟩
    | false =>
      have hlisted : s.listed = true := by
        rcases hstands with hl | hl
        · exact hl
        · rw [hending] at hl
          cases hl
      obtain ⟨hwants, hpassed, hbefore⟩ := hevents hlisted e List.mem_cons_self
      have hplain : (Envelope.event e).isClosing = false := rfl
      obtain ⟨hok, hgrown⟩ := h.offer hlisted hplain
        (w.snapshotFor_isClosing s .subscriberOverflow) (fun x hx => by
          cases hx
          exact ⟨hwants, hpassed, hbefore⟩)
      have hnext := ih _ hok (offer_stands h hlisted _ _) (by
        intro hl x hx
        obtain ⟨hxwants, hxpassed, hxbefore⟩ := hevents hlisted x (List.mem_cons_of_mem e hx)
        refine ⟨by rw [Subscription.wants_offer]; exact hxwants, hxpassed, ?_⟩
        intro y hy
        rw [hgrown hl] at hy
        rcases List.mem_append.mp hy with hy | hy
        · exact hxbefore y hy
        · rw [List.mem_singleton.mp hy]
          exact hfirst x hx) hrest
      simp only [List.foldl_cons, hending, Bool.false_eq_true, if_false]
      refine ⟨hnext.1, fun x => (hnext.2.1 x).trans (Subscription.wants_offer _ _ _ x), ?_⟩
      intro hl
      obtain ⟨hoffered, hall⟩ := hnext.2.2 hl
      refine ⟨hlisted, ?_⟩
      rw [hall, hgrown hoffered, List.append_assoc]
      rfl

theorem ok_ofFilter (passed : List EventRecord) (limits : Limits) (after : Nat)
    (scopes : Option (List EventScope)) (threadIds : Option (List String)) :
    (Subscription.ofFilter limits after scopes threadIds).Ok passed where
  sized := fun _ _ hmem => absurd hmem List.not_mem_nil
  bytes := rfl
  increasing := List.Pairwise.nil
  wanted := fun _ hmem => absurd hmem List.not_mem_nil
  standing := .active rfl rfl rfl rfl List.not_mem_nil fun _ hmem => absurd hmem List.not_mem_nil

/-- A new subscription gets what it wants from the history, or it is told that it cannot. -/
theorem Base.replayHistory (h : w.Base) {s : Subscription} (hs : s.Ok w.passed)
    (hlisted : s.listed = true) (hempty : s.events = []) :
    (w.replayHistory s).Ok w.passed ∧ ((w.replayHistory s).listed = true →
      ∀ e ∈ w.passed, (w.replayHistory s).wants e = true → e ∈ (w.replayHistory s).events) := by
  have hreplaced : ∀ reason, (s.replaceThenClose (w.snapshotFor s reason)).Ok w.passed ∧
      ((s.replaceThenClose (w.snapshotFor s reason)).listed = true → ∀ e ∈ w.passed,
        (s.replaceThenClose (w.snapshotFor s reason)).wants e = true →
          e ∈ (s.replaceThenClose (w.snapshotFor s reason)).events) := by
    intro reason
    have hover := hs.replaceThenClose (w.snapshotFor_isClosing s reason)
    refine ⟨hover.1, fun hl => ?_⟩
    rw [hover.2] at hl
    cases hl
  have hafter : ∀ e, s.wants e = true → s.after < e.cursor :=
    fun e he => Subscription.after_lt_of_wants he
  unfold World.replayHistory
  split
  · rename_i hle
    refine ⟨hs, fun _ e he hwants => ?_⟩
    have hlt := hafter e hwants
    have hpassed := h.passed_le e he
    omega
  split
  · rename_i first last hfirst hlast
    split
    · exact hreplaced .cursorGap
    rename_i hcovered
    dsimp only
    split
    · exact hreplaced .subscriberOverflow
    have hwanted : ∀ e ∈ w.history.filter s.wants,
        s.wants e = true ∧ e ∈ w.passed ∧ ∀ x ∈ s.events, x.cursor < e.cursor := by
      intro e he
      obtain ⟨hmem, hwants⟩ := List.mem_filter.mp he
      refine ⟨hwants, h.history e hmem, fun x hx => ?_⟩
      rw [hempty] at hx
      cases hx
    have hfold := foldl_offer w (w.history.filter s.wants) s hs (.inl hlisted)
      (fun _ => hwanted) (h.increasing.sublist List.filter_sublist)
    refine ⟨hfold.1, fun hl e he hwants => ?_⟩
    rw [(hfold.2.2 hl).2, hempty, List.nil_append]
    rw [hfold.2.1] at hwants
    have hlt := hafter e hwants
    have hmem : first ∈ w.history := List.mem_of_mem_head? hfirst
    have hle : first.cursor ≤ e.cursor := by
      by_cases hgap : s.after + 1 < first.cursor
      · exact absurd (.inr hgap) hcovered
      · omega
    exact List.mem_filter.mpr ⟨h.covers first hmem e he hle, hwants⟩
  · exact hreplaced .cursorGap

/-! ## Runs -/

structure Ahead (cursor : Nat) (surviving : List EventRecord) (b : EventBatch)
    (rest : List EventRecord) : Prop where
  after : ∀ e ∈ rest, cursor < e.cursor ∧ e ∈ surviving
  increasing : rest.Pairwise fun a b => a.cursor < b.cursor
  all : ∀ e ∈ surviving, cursor < e.cursor → e.cursor ≤ b.nextCursor → e ∈ rest
  bound : ∀ e ∈ rest, e.cursor ≤ b.nextCursor

def Ready (w : World) : Prop :=
  match w.phase with
  | .unstarted => w.history = []
  | .listening surviving b rest => Ahead w.cursor surviving b rest
  | _ => True

/-- No snapshot is about to be published, and `async_close` has not been called. -/
def Settled (w : World) : Prop := w.closed = false ∧ w.phase.isAnnouncing = false

structure Inv (w : World) : Prop where
  base : w.Base
  ready : w.Ready
  complete : w.Settled → AllComplete w.passed w.subs

theorem Inv.complete_of (h : w.Inv)
    (hphase : ∀ problem hasMore, w.phase ≠ .announcing problem hasMore) (hopen : w.closed = false) :
      AllComplete w.passed w.subs := by
  apply h.complete
  refine ⟨hopen, ?_⟩
  cases hp : w.phase with
  | announcing problem hasMore => exact absurd hp (hphase problem hasMore)
  | unstarted | requesting | listening | settling | stopped => rfl

theorem inv_initial (cursor : Nat) : (initial cursor).Inv where
  base := ⟨fun _ he => absurd he List.not_mem_nil, fun _ he => absurd he List.not_mem_nil,
    List.Pairwise.nil, fun _ he => absurd he List.not_mem_nil,
    fun _ hs => absurd hs List.not_mem_nil⟩
  ready := rfl
  complete := fun _ _ hs => absurd hs List.not_mem_nil

theorem Base.gap (h : w.Base) (hle : w.cursor ≤ cursor) : (w.gap surviving cursor b).Inv where
  base := (h.jump hle).of_subs rfl rfl rfl (h.jump hle).ok
  ready := trivial
  complete := fun hsettled => by cases hsettled.2

section

variable (h : w.Base) (hcomplete : w.closed = false → AllComplete w.passed w.subs)

include h hcomplete

theorem Base.consumeNext (hahead : Ahead w.cursor surviving b rest) :
    (w.consumeNext surviving b rest).Inv := by
  cases rest with
  | nil =>
    have hnone : ∀ e ∈ surviving, w.cursor < e.cursor →
        ¬ e.cursor ≤ max w.cursor b.nextCursor := by
      intro e he hlt hle
      have hnext : e.cursor ≤ b.nextCursor := by omega
      exact absurd (hahead.all e he hlt hnext) List.not_mem_nil
    obtain ⟨hbase, hsame⟩ := h.advance (Nat.le_max_left _ _) hnone
    refine ⟨hbase.of_subs rfl rfl rfl hbase.ok, trivial, fun hsettled => ?_⟩
    intro s hs hl e he
    exact hcomplete hsettled.1 s hs hl e ((hsame e).mp he)
  | cons e others =>
    show Inv (if w.cursor + 1 < e.cursor then w.gap surviving (max w.cursor b.nextCursor) b
      else { w with phase := .listening surviving b (e :: others) })
    split
    · exact h.gap (Nat.le_max_left _ _)
    · exact ⟨h.of_subs rfl rfl rfl h.ok, ⟨hahead.after, hahead.increasing, hahead.all,
        hahead.bound⟩, fun hsettled => hcomplete hsettled.1⟩

theorem Base.consume (hin : ∀ e ∈ b.events, e ∈ surviving)
    (hall : ∀ e ∈ surviving, w.cursor < e.cursor → e.cursor ≤ b.nextCursor → e ∈ b.events) :
    (w.consume surviving b).Inv := by
  unfold World.consume
  dsimp only
  split
  · exact h.gap (Nat.le_max_left _ _)
  apply h.consumeNext hcomplete
  constructor
  · intro e he
    obtain ⟨hmem, hlt⟩ := List.mem_filter.mp he
    exact ⟨of_decide_eq_true hlt, hin e hmem⟩
  · exact b.increasing.sublist List.filter_sublist
  · intro e he hlt hle
    exact List.mem_filter.mpr ⟨hall e he hlt hle, decide_eq_true hlt⟩
  · intro e he
    exact (b.bounds e (List.mem_filter.mp he).1).2

/-- The listeners have taken an event, and the subscriptions get it. -/
theorem Base.deliver {e : EventRecord} (hahead : Ahead w.cursor surviving b (e :: rest)) :
    (w.deliver limits surviving e).Base ∧ ((w.deliver limits surviving e).closed = false →
      AllComplete (w.deliver limits surviving e).passed (w.deliver limits surviving e).subs) ∧
        Ahead (w.deliver limits surviving e).cursor surviving b rest := by
  obtain ⟨hfirst, hincreasing⟩ := List.pairwise_cons.mp hahead.increasing
  obtain ⟨hlt, hsurviving⟩ := hahead.after e List.mem_cons_self
  have hbound := hahead.bound e List.mem_cons_self
  have honly : ∀ x ∈ surviving, w.cursor < x.cursor → x.cursor ≤ e.cursor → x = e := by
    intro x hx hafter hle
    rcases List.mem_cons.mp (hahead.all x hx hafter (Nat.le_trans hle hbound)) with rfl | hin
    · rfl
    · have hlater := hfirst x hin
      omega
  have hpass : Base ((w.advance surviving e.cursor).appendHistory limits e) ∧ _ :=
    h.pass hlt hsurviving honly
  obtain ⟨hbase, hmem⟩ := hpass
  generalize hpassed : (w.advance surviving e.cursor).appendHistory limits e = u at hbase hmem
  have hfields : u.cursor = e.cursor ∧ u.subs = w.subs ∧ u.closed = w.closed := by
    rw [← hpassed]
    unfold appendHistory
    split
    · exact ⟨rfl, rfl, rfl⟩
    · exact ⟨rfl, rfl, rfl⟩
  obtain ⟨hcursor, hsubs, hclosed⟩ := hfields
  have hdeliver : w.deliver limits surviving e = u.publishEvent e := by
    unfold World.deliver
    rw [hpassed]
  have hoffer : ∀ s ∈ u.subs, s.listed = true → s.wants e = true →
      (s.offer (.event e) (u.snapshotFor s .subscriberOverflow)).Ok u.passed ∧
        ((s.offer (.event e) (u.snapshotFor s .subscriberOverflow)).listed = true →
          (s.offer (.event e) (u.snapshotFor s .subscriberOverflow)).events = s.events ++ [e]) := by
    intro s hs hlisted hwants
    have hplain : (Envelope.event e).isClosing = false := rfl
    apply (hbase.ok s hs).offer hlisted hplain (u.snapshotFor_isClosing s .subscriberOverflow)
    intro x hx
    cases hx
    refine ⟨hwants, (hmem e).mpr (.inr rfl), fun y hy => ?_⟩
    rw [hsubs] at hs
    have hold := h.passed_le y ((h.ok s hs).wanted y hy).2
    omega
  rw [hdeliver]
  refine ⟨hbase.of_subs rfl rfl rfl ?_, fun hopen => ?_, ?_⟩
  · apply AllOk.map
    intro s hs
    split
    · rename_i hgets
      exact (hoffer s hs hgets.1 hgets.2.2).1
    · exact hbase.ok s hs
  · have hopen : u.closed = false := hopen
    rw [hclosed] at hopen
    apply AllComplete.map
    intro s hs
    have hs' := hs
    rw [hsubs] at hs'
    split
    · rename_i hgets
      intro hl x hx hwants
      rw [Subscription.wants_offer] at hwants
      rw [(hoffer s hs hgets.1 hgets.2.2).2 hl]
      rcases (hmem x).mp hx with hold | rfl
      · exact List.mem_append_left _ (hcomplete hopen s hs' hgets.1 x hold hwants)
      · exact List.mem_append_right _ List.mem_cons_self
    · rename_i hnot
      intro hl x hx hwants
      rcases (hmem x).mp hx with hold | rfl
      · exact hcomplete hopen s hs' hl x hold hwants
      · have hsclosed := (hbase.ok s hs).closed_of_listed hl
        exact absurd ⟨hl, by rw [hsclosed]; decide, hwants⟩ hnot
  · have hcursor' : (u.publishEvent e).cursor = e.cursor := hcursor
    constructor
    · intro x hx
      rw [hcursor']
      exact ⟨hfirst x hx, (hahead.after x (List.mem_cons_of_mem e hx)).2⟩
    · exact hincreasing
    · intro x hx hafter hle
      rw [hcursor'] at hafter
      rcases List.mem_cons.mp (hahead.all x hx (Nat.lt_trans hlt hafter) hle) with rfl | hin
      · exact absurd hafter (Nat.lt_irrefl _)
      · exact hin
    · exact fun x hx => hahead.bound x (List.mem_cons_of_mem e hx)

theorem Base.setStatus (state : StreamState) (phase : StreamPhase) (retryCount : Nat)
    (notify : Bool) : (w.setStatus state phase retryCount notify).Base ∧
      ((w.setStatus state phase retryCount notify).closed = false →
        AllComplete (w.setStatus state phase retryCount notify).passed
          (w.setStatus state phase retryCount notify).subs) := by
  obtain ⟨hcursor, hhistory, hpassed, hclosed⟩ :=
    setStatus_fields w state phase retryCount notify
  obtain ⟨hok, hkeeps⟩ := setStatus_ok h.ok state phase retryCount notify
  refine ⟨h.of_subs hcursor hhistory hpassed hok, fun hopen => ?_⟩
  rw [hclosed] at hopen
  rw [hpassed]
  exact hkeeps (hcomplete hopen)

theorem Base.reconnect :
    w.reconnect.Inv := by
  obtain ⟨hbase, hall⟩ := h.setStatus hcomplete .reconnecting w.requestPhase (w.retry + 1) true
  exact ⟨hbase.of_subs rfl rfl rfl hbase.ok, trivial, fun hsettled => hall hsettled.1⟩

theorem Base.retryAfterFailure (state : StreamState) :
    (w.retryAfterFailure state).Inv := by
  obtain ⟨hbase, hall⟩ := h.setStatus hcomplete state .backoff (w.failures + 1) true
  exact ⟨hbase.of_subs rfl rfl rfl hbase.ok, trivial, fun hsettled => hall hsettled.1⟩

theorem Base.connected (hasMore : Bool) : (w.connected hasMore).Inv := by
  obtain ⟨hbase, hall⟩ := h.setStatus hcomplete .connected (if hasMore then .replay else .wait) 0
    (decide (0 < w.retry) || decide (0 < w.failures))
  exact ⟨hbase.of_subs rfl rfl rfl hbase.ok, trivial, fun hsettled => hall hsettled.1⟩

theorem Base.recover (problem : Option Problem) : (w.recover surviving problem).Inv := by
  unfold World.recover
  split
  · rename_i snapshot minimum _
    have hjump : (w.advance surviving _).clearHistory.Base :=
      h.jump (Nat.le_max_left w.cursor (max snapshot minimum))
    exact ⟨hjump.of_subs rfl rfl rfl hjump.ok, trivial, fun hsettled => by cases hsettled.2⟩
  · have hfailed := h.retryAfterFailure hcomplete .protocolError
    exact ⟨hfailed.base.of_subs rfl rfl rfl hfailed.base.ok, trivial,
      fun hsettled => hfailed.complete ⟨hsettled.1, rfl⟩⟩

end

theorem Base.announce (h : w.Base) (problem : Option Problem) (hasMore : Option Bool) :
    (w.announce problem hasMore).Inv := by
  cases hasMore with
  | some more =>
    obtain ⟨hok, hnone⟩ := publishSnapshot_ok h.ok (w.snapshotAll_isClosing .cursorGap none)
    have hbase : (w.publishSnapshot (w.snapshotAll .cursorGap none)).Base :=
      h.of_subs rfl rfl rfl hok
    exact hbase.connected (fun _ => .of_unlisted hnone) more
  | none =>
    obtain ⟨hok, hnone⟩ := publishSnapshot_ok h.ok
      (w.snapshotAll_isClosing .journalCompacted problem)
    exact ⟨h.of_subs rfl rfl rfl hok, trivial, fun _ => .of_unlisted hnone⟩

theorem Inv.sub (h : w.Inv) {k : Nat} {step : Subscription → Option Subscription}
    (hstep : ∀ s s', s.Ok w.passed → step s = some s' → s'.Ok w.passed ∧
      (s'.listed = true → s.listed = true ∧ s'.events = s.events ∧ ∀ e, s'.wants e = s.wants e))
    (hs : w.sub k step = some w') : w'.Inv := by
  obtain ⟨s, hget, hs⟩ := Option.bind_eq_some_iff.mp hs
  obtain ⟨s', hs', rfl⟩ := Option.map_eq_some_iff.mp hs
  have hmem := List.mem_of_getElem? hget
  obtain ⟨hok, hkeeps⟩ := hstep s s' (h.base.ok s hmem) hs'
  refine ⟨h.base.of_subs rfl rfl rfl ?_, h.ready, fun hsettled => ?_⟩
  · intro t ht
    rcases List.mem_or_eq_of_mem_set ht with ht | rfl
    · exact h.base.ok t ht
    · exact hok
  · intro t ht hl e he hwants
    rcases List.mem_or_eq_of_mem_set ht with ht | rfl
    · exact h.complete hsettled t ht hl e he hwants
    obtain ⟨hlisted, hevents, hsame⟩ := hkeeps hl
    rw [hsame] at hwants
    rw [hevents]
    exact h.complete hsettled s hmem hlisted e he hwants

theorem get_keeps (s s' : Subscription) (h : s.Ok passed) (hget : s.get = some s') : s'.Ok passed ∧
      (s'.listed = true → s.listed = true ∧ s'.events = s.events ∧
        ∀ e, s'.wants e = s.wants e) := by
  refine ⟨h.get hget, ?_⟩
  obtain ⟨_, hget⟩ := Option.ite_none_left_eq_some.mp hget
  cases hget
  exact fun hl => ⟨hl, rfl, fun _ => rfl⟩

theorem wake_keeps (s s' : Subscription) (h : s.Ok passed)
    (hwake : s.wake = some s') : s'.Ok passed ∧
      (s'.listed = true → s.listed = true ∧ s'.events = s.events ∧
        ∀ e, s'.wants e = s.wants e) := by
  refine ⟨h.wake hwake, fun hl => ⟨?_, ?_, Subscription.wants_wake hwake⟩⟩
  · unfold Subscription.wake at hwake
    obtain ⟨_, hwake⟩ := Option.ite_none_left_eq_some.mp hwake
    split at hwake
    · cases hwake
    · cases hwake
      exact hl
    · cases hwake
      exact hl
  · unfold Subscription.events
    rw [Subscription.line_wake hwake]

def Whole (w : World) : Action → Prop
  | .batch surviving b =>
    ∀ e ∈ surviving, w.cursor < e.cursor → e.cursor ≤ b.nextCursor → e ∈ b.events
  | _ => True

/-- The saved cursor is read before anybody subscribes. -/
def Orderly (w : World) : Action → Prop
  | .load _ _ => w.subs = []
  | _ => True

theorem inv_next {a : Action} (h : w.Inv) (hwhole : w.Whole a) (horderly : w.Orderly a)
    (hs : next limits w a = some w') : w'.Inv := by
  cases a with
  | start =>
    dsimp only [next] at hs
    split at hs
    · rename_i hphase
      obtain ⟨_, hs⟩ := Option.ite_none_left_eq_some.mp hs
      cases hs
      have hcomplete := h.complete_of (fun _ _ heq => by rw [hphase] at heq; cases heq)
      obtain ⟨hbase, hall⟩ := h.base.setStatus hcomplete .connecting .replay 0 false
      exact ⟨hbase.of_subs rfl rfl rfl hbase.ok, trivial, fun hsettled => hall hsettled.1⟩
    · cases hs
  | load surviving saved =>
    dsimp only [next] at hs
    split at hs
    · rename_i hphase
      obtain ⟨hle, hs⟩ := Option.ite_none_right_eq_some.mp hs
      cases hs
      have hnone : w.subs = [] := horderly
      have hhistory : w.history = [] := by
        have hready := h.ready
        unfold Ready at hready
        rw [hphase] at hready
        exact hready
      have hready : (w.advance surviving saved).Ready := by
        unfold Ready
        rw [show (w.advance surviving saved).phase = .unstarted from hphase]
        exact hhistory
      have hjump : (w.advance surviving saved).clearHistory.Base := h.base.jump hle
      refine ⟨hjump.of_subs rfl hhistory rfl hjump.ok, hready, fun _ s hs => ?_⟩
      · rw [show (w.advance surviving saved).subs = [] from hnone] at hs
        cases hs
    · cases hs
  | batch surviving b =>
    dsimp only [next] at hs
    split at hs
    · rename_i hphase
      cases hs
      have hcomplete := h.complete_of (fun _ _ heq => by rw [hphase] at heq; cases heq)
      apply h.base.consume hcomplete fun e he => List.mem_append_right _ he
      intro e he hlt hle
      rcases List.mem_append.mp he with he | he
      · exact hwhole e he hlt hle
      · exact he
    · cases hs
  | gone surviving problem =>
    dsimp only [next] at hs
    split at hs
    · rename_i hphase
      cases hs
      have hcomplete := h.complete_of (fun _ _ heq => by rw [hphase] at heq; cases heq)
      exact h.base.recover hcomplete problem
    · cases hs
  | trouble trouble =>
    dsimp only [next] at hs
    split at hs
    · rename_i hphase
      have hcomplete := h.complete_of (fun _ _ heq => by rw [hphase] at heq; cases heq)
      split at hs
      · cases hs
        obtain ⟨hbase, hall⟩ :=
          h.base.setStatus hcomplete .authenticationFailed .stopped w.retry true
        exact ⟨hbase.of_subs rfl rfl rfl hbase.ok, trivial, fun hsettled => hall hsettled.1⟩
      · cases hs
        exact h.base.reconnect hcomplete
      · cases hs
        exact h.base.reconnect hcomplete
      · cases hs
        exact h.base.retryAfterFailure hcomplete _
      · cases hs
        exact h.base.retryAfterFailure hcomplete _
      · cases hs
        exact h.base.retryAfterFailure hcomplete _
    · cases hs
  | listened =>
    dsimp only [next] at hs
    split at hs
    · rename_i surviving b e rest hphase
      cases hs
      have hcomplete := h.complete_of (fun _ _ heq => by rw [hphase] at heq; cases heq)
      have hahead : Ahead w.cursor surviving b (e :: rest) := by
        have hready := h.ready
        unfold Ready at hready
        rw [hphase] at hready
        exact hready
      obtain ⟨hbase, hall, hrest⟩ := h.base.deliver hcomplete hahead
      exact hbase.consumeNext hall hrest
    · cases hs
  | listenerFailed =>
    dsimp only [next] at hs
    split at hs
    · rename_i hphase
      cases hs
      have hcomplete := h.complete_of (fun _ _ heq => by rw [hphase] at heq; cases heq)
      exact h.base.reconnect hcomplete
    · cases hs
  | saved =>
    dsimp only [next] at hs
    split at hs
    · cases hs
      exact h.base.announce _ _
    · rename_i b hphase
      cases hs
      have hcomplete := h.complete_of (fun _ _ heq => by rw [hphase] at heq; cases heq)
      split
      · obtain ⟨hok, hkeeps⟩ := publishEnvelope_ok h.base.ok
          (show (Envelope.heartbeat w.cursor).isClosing = false from rfl) rfl
        have hbase : (w.publishEnvelope (.heartbeat w.cursor)).Base :=
          h.base.of_subs rfl rfl rfl hok
        exact hbase.connected (fun hopen => hkeeps (hcomplete hopen)) _
      · exact h.base.connected hcomplete _
    · cases hs
  | subscribe after scopes threadIds =>
    obtain ⟨_, hs⟩ := Option.ite_none_left_eq_some.mp hs
    cases hs
    obtain ⟨hok, hall⟩ := h.base.replayHistory
      (ok_ofFilter w.passed limits after scopes threadIds) rfl rfl
    refine ⟨h.base.of_subs rfl rfl rfl ?_, h.ready, fun hsettled => ?_⟩
    · intro s hs
      rcases List.mem_append.mp hs with hs | hs
      · exact h.base.ok s hs
      · rw [List.mem_singleton.mp hs]
        exact hok
    · intro s hs
      rcases List.mem_append.mp hs with hs | hs
      · exact h.complete hsettled s hs
      · rw [List.mem_singleton.mp hs]
        exact hall
  | get k => exact h.sub get_keeps hs
  | wake k => exact h.sub wake_keeps hs
  | close k =>
    apply h.sub _ hs
    intro s s' hok hclose
    cases hclose
    refine ⟨hok.close.1, fun hl => ?_⟩
    rw [hok.close.2] at hl
    cases hl
  | shutdown =>
    cases hs
    exact ⟨h.base.of_subs rfl rfl rfl h.base.ok, h.ready, fun hsettled => by cases hsettled.1⟩
  | cancelled =>
    obtain ⟨hclosed, hs⟩ := Option.ite_none_right_eq_some.mp hs
    cases hs
    refine ⟨h.base.of_subs rfl rfl rfl h.base.ok, trivial, fun hsettled => ?_⟩
    rw [show w.closed = false from hsettled.1] at hclosed
    cases hclosed
  | closeAll =>
    obtain ⟨hclosed, hs⟩ := Option.ite_none_right_eq_some.mp hs
    cases hs
    refine ⟨h.base.of_subs rfl rfl rfl (AllOk.map ?_), h.ready, fun hsettled => ?_⟩
    · intro s hs
      split
      · exact (h.base.ok s hs).close.1
      · exact h.base.ok s hs
    · rw [show w.closed = false from hsettled.1] at hclosed
      cases hclosed

theorem inv_exec {as : List Action}
    (hp : Meets (next limits) (fun w a => w.Whole a ∧ w.Orderly a) (initial cursor) as)
    (h : exec (next limits) (initial cursor) as = some w) : w.Inv :=
  invariant_of_meets (fun _ _ _ hi hc hs => inv_next hi hc.1 hc.2 hs) (inv_initial cursor) hp h

end World

namespace Subscription

def Ends (s : Subscription) : Prop :=
  (∃ last, s.pending = [last] ∧ last.isClosing = true ∧ s.closeAfterDelivery = true) ∨
    ∃ before last, s.returned = before ++ [last] ∧ last.isClosing = true ∧ s.pending = [] ∧
      s.closed = true

structure Faithful (w : World) (s : Subscription) : Prop where
  bytes : s.queuedBytes = (s.pending.map Envelope.size).sum
  increasing : (s.returned.filterMap Envelope.event?).Pairwise fun a b => a.cursor < b.cursor
  wanted : ∀ e, .event e ∈ s.returned → s.wants e = true ∧ s.after < e.cursor ∧ e ∈ w.passed
  last : ∀ before envelope after, s.returned = before ++ envelope :: after →
    envelope.isClosing = true → after = []
  complete : w.Settled → s.wasClosed = false → ∀ e ∈ w.passed, s.wants e = true →
    .event e ∈ s.returned ∨ .event e ∈ s.pending ∨ s.Ends

theorem mem_line_of_mem_events {s : Subscription} {e : EventRecord} (h : e ∈ s.events) :
    .event e ∈ s.line := by
  obtain ⟨envelope, hmem, hevent⟩ := List.mem_filterMap.mp h
  cases envelope with
  | event x =>
    cases hevent
    exact hmem
  | snapshot | heartbeat | status => cases hevent

/-- A subscription that the broker does not have any more ends with a closing envelope, unless
its owner closed it. -/
theorem Ok.ends {passed : List EventRecord} {s : Subscription} (h : s.Ok passed)
    (hlisted : s.listed = false) (hopen : s.wasClosed = false) : s.Ends := by
  cases h.standing with
  | active hl _ _ _ _ _ =>
    rw [hlisted] at hl
    cases hl
  | ending last _ _ hending _ hqueue hlast _ =>
    refine .inl ⟨last, ?_, hlast, hending⟩
    unfold pending
    rw [hqueue]
    rfl
  | ended before last _ hclosed _ hqueue hreturned hlast _ =>
    refine .inr ⟨before, last, hreturned, hlast, ?_, hclosed⟩
    unfold pending
    rw [hqueue]
    rfl
  | dropped _ _ hw _ _ =>
    rw [hopen] at hw
    cases hw

end Subscription

namespace World

/-- Every subscription of a run gets all that it wants, or it ends with an envelope that says
that it does not. -/
theorem fanout_faithful {cursor : Nat} {as : List Action}
    (hp : Meets (next limits.clamp) (fun w a => w.Whole a ∧ w.Orderly a) (initial cursor) as)
    (h : exec (next limits.clamp) (initial cursor) as = some w) :
    ∀ s ∈ w.subs, s.Faithful w := by
  intro s hs
  have hinv := inv_exec hp h
  have hok := hinv.base.ok s hs
  constructor
  · exact hok.queuedBytes_eq
  · have hincreasing := hok.increasing
    rw [Subscription.events_eq] at hincreasing
    exact (List.pairwise_append.mp hincreasing).1
  · intro e he
    have hmem : e ∈ s.events := by
      rw [Subscription.events_eq]
      exact List.mem_append_left _ (List.mem_filterMap.mpr ⟨_, he, rfl⟩)
    obtain ⟨hwants, hpassed⟩ := hok.wanted e hmem
    exact ⟨hwants, Subscription.after_lt_of_wants hwants, hpassed⟩
  · exact fun _ _ _ hreturned hclosing => hok.closing_last hreturned hclosing
  · intro hsettled hopen e he hwants
    cases hlisted : s.listed with
    | true =>
      have hmem := hinv.complete hsettled s hs hlisted e he hwants
      rcases List.mem_append.mp (Subscription.mem_line_of_mem_events hmem) with hin | hin
      · exact .inl hin
      · exact .inr (.inl hin)
    | false => exact .inr (.inr (hok.ends hlisted hopen))

instance (w : World) (a : Action) : Decidable (w.Whole a) :=
  match a with
  | .batch surviving b => inferInstanceAs (Decidable (∀ e ∈ surviving, w.cursor < e.cursor →
      e.cursor ≤ b.nextCursor → e ∈ b.events))
  | .start | .load _ _ | .gone _ _ | .trouble _ | .listened | .listenerFailed | .saved
  | .subscribe _ _ _ | .get _ | .wake _ | .close _ | .shutdown | .cancelled | .closeAll =>
    isTrue trivial

instance (w : World) (a : Action) : Decidable (w.Orderly a) :=
  match a with
  | .load _ _ => decidable_of_iff (w.subs.isEmpty = true) List.isEmpty_iff
  | .start | .batch _ _ | .gone _ _ | .trouble _ | .listened | .listenerFailed | .saved
  | .subscribe _ _ _ | .get _ | .wake _ | .close _ | .shutdown | .cancelled | .closeAll =>
    isTrue trivial

instance (w : World) : Decidable w.Settled := inferInstanceAs (Decidable (_ ∧ _))

def sampleEvent (cursor : Nat) : EventRecord :=
  ⟨cursor, "event-1", .runtime, none, "runtime.updated", .obj [], "2026-01-01T00:00:00Z", 170⟩

def sampleBatch : EventBatch where
  events := [sampleEvent 1, sampleEvent 2]
  nextCursor := 2
  minimumCursor := 0
  hasMore := false
  heartbeat := false
  length_le := by decide
  nextCursor_le := by decide
  minimum_le := by decide
  increasing := by decide
  bounds := by decide
  quiet := by decide

def sampleRun : List Action :=
  [.start, .subscribe 0 none none, .batch [sampleEvent 1, sampleEvent 2] sampleBatch, .listened,
    .listened, .saved, .get 0, .wake 0]

def sampleLimits : Limits := ⟨256, 256, 8388608, 8388608⟩

theorem fanout_faithful_sample :
    (exec (next sampleLimits.clamp) (initial 0) sampleRun).any (fun w => w.subs.map (fun s =>
      (s.returned, s.pending)) = [([.event (sampleEvent 1)], [.event (sampleEvent 2)])]) = true ∧
      ∀ w, exec (next sampleLimits.clamp) (initial 0) sampleRun = some w →
        ∀ s ∈ w.subs, s.Faithful w := by
  have hmeets : Meets (next sampleLimits.clamp) (fun w a => w.Whole a ∧ w.Orderly a) (initial 0)
      sampleRun := by
    decide +kernel
  exact ⟨by decide +kernel, fun w h => fanout_faithful hmeets h⟩

/-- The cursor is read from the store while somebody listens already. -/
def earlyRun : List Action := [.subscribe 0 none none, .load [sampleEvent 1] 5, .start]

/-- A subscription made before the saved cursor is read misses what the cursor passes then. -/
theorem early_subscription_misses : ¬ ∀ (limits : Limits) (cursor : Nat) (as : List Action)
    (w : World), Meets (next limits.clamp) Whole (initial cursor) as →
      exec (next limits.clamp) (initial cursor) as = some w → ∀ s ∈ w.subs, w.Settled →
        s.wasClosed = false → ∀ e ∈ w.passed, s.wants e = true →
          .event e ∈ s.returned ∨ .event e ∈ s.pending ∨ s.Ends := by
  intro hall
  have hmeets : Meets (next sampleLimits.clamp) Whole (initial 0) earlyRun := by
    decide +kernel
  have hrun : (exec (next sampleLimits.clamp) (initial 0) earlyRun).any (fun w =>
      w.Settled ∧ sampleEvent 1 ∈ w.passed ∧ ∃ s ∈ w.subs, s.wasClosed = false ∧
        s.wants (sampleEvent 1) = true ∧ s.returned = [] ∧ s.pending = []) = true := by
    decide +kernel
  obtain ⟨w, hw, hend⟩ := (Option.any_eq_true _ _).mp hrun
  obtain ⟨hsettled, hpassed, s, hs, hopen, hwants, hreturned, hpending⟩ := of_decide_eq_true hend
  rcases hall sampleLimits 0 earlyRun w hmeets hw s hs hsettled hopen _ hpassed hwants with
    hin | hin | hends
  · rw [hreturned] at hin
    cases hin
  · rw [hpending] at hin
    cases hin
  · rcases hends with ⟨last, hlast, _⟩ | ⟨before, last, hlast, _⟩
    · rw [hpending] at hlast
      cases hlast
    · rw [hreturned] at hlast
      exact absurd hlast.symm (List.append_ne_nil_of_right_ne_nil _ (List.cons_ne_nil _ _))

end World

end CodexBridge.Stream
