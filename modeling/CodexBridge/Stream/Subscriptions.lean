import CodexBridge.Stream.Broker

/-! # What a subscription holds

The envelopes of a subscription, returned and queued, in the order in which they are returned.
An envelope after which it is over is the last of them.
-/

namespace CodexBridge.Stream

namespace Subscription

variable {passed : List EventRecord} {s s' : Subscription} {envelope : Envelope}

/-- All envelopes for the client, handed over or still queued. -/
def line (s : Subscription) : List Envelope := s.returned ++ s.pending

def events (s : Subscription) : List EventRecord := s.line.filterMap Envelope.event?

/-- A closing envelope is the last one, and nothing is queued behind it. -/
inductive Standing (s : Subscription) : Prop
  | active (listed : s.listed = true) (closed : s.closed = false)
      (ending : s.closeAfterDelivery = false) (wasClosed : s.wasClosed = false)
      (entries : .close ∉ s.queue) (plain : ∀ r ∈ s.line, r.isClosing = false)
  | ending (last : Envelope) (listed : s.listed = false) (closed : s.closed = false)
      (ending : s.closeAfterDelivery = true) (wasClosed : s.wasClosed = false)
      (queue : s.queue = [.item last last.size]) (closing : last.isClosing = true)
      (plain : ∀ r ∈ s.returned, r.isClosing = false)
  | ended (before : List Envelope) (last : Envelope) (listed : s.listed = false)
      (closed : s.closed = true) (wasClosed : s.wasClosed = false) (queue : s.queue = [])
      (returned : s.returned = before ++ [last]) (closing : last.isClosing = true)
      (plain : ∀ r ∈ before, r.isClosing = false)
  | dropped (listed : s.listed = false) (closed : s.closed = true) (wasClosed : s.wasClosed = true)
      (pending : s.pending = []) (plain : ∀ r ∈ s.returned, r.isClosing = false)

theorem after_lt_of_wants {e : EventRecord} (h : s.wants e = true) : s.after < e.cursor := by
  have hfirst := (Bool.and_eq_true_iff.mp (Bool.and_eq_true_iff.mp h).1).1
  exact of_decide_eq_true hfirst

/-- What holds of a subscription after the events `passed` were offered to it. -/
structure Ok (passed : List EventRecord) (s : Subscription) : Prop where
  sized : ∀ envelope size, .item envelope size ∈ s.queue → size = envelope.size
  bytes : s.queuedBytes = (s.queue.map Entry.bytes).sum
  increasing : s.events.Pairwise fun a b => a.cursor < b.cursor
  wanted : ∀ e ∈ s.events, s.wants e = true ∧ e ∈ passed
  standing : s.Standing

theorem Ok.mono {more : List EventRecord} (h : s.Ok passed) (hmore : ∀ e ∈ passed, e ∈ more) :
    s.Ok more :=
  ⟨h.sized, h.bytes, h.increasing, fun e he => ⟨(h.wanted e he).1, hmore e (h.wanted e he).2⟩,
    h.standing⟩

theorem Ok.closed_of_listed (h : s.Ok passed) (hlisted : s.listed = true) : s.closed = false := by
  cases h.standing with
  | active _ hclosed _ _ _ _ => exact hclosed
  | ending _ hl _ _ _ _ _ _ | ended _ _ hl _ _ _ _ _ _ | dropped hl _ _ _ _ =>
    rw [hlisted] at hl
    cases hl

theorem Ok.queuedBytes_eq (h : s.Ok passed) :
    s.queuedBytes = (s.pending.map Envelope.size).sum := by
  have hqueue : ∀ queue : List Entry, (∀ e size, .item e size ∈ queue → size = e.size) →
      (queue.map Entry.bytes).sum = ((queue.filterMap Entry.envelope?).map Envelope.size).sum := by
    intro queue hsized
    induction queue with
    | nil => rfl
    | cons entry rest ih =>
      have hrest := ih fun e size hmem => hsized e size (List.mem_cons_of_mem entry hmem)
      cases entry with
      | item e size =>
        have hsize := hsized e size List.mem_cons_self
        show size + (rest.map Entry.bytes).sum =
          e.size + ((rest.filterMap Entry.envelope?).map Envelope.size).sum
        rw [hrest, hsize]
      | close =>
        show 0 + (rest.map Entry.bytes).sum = _
        rw [hrest, Nat.zero_add]
        rfl
  rw [h.bytes]
  exact hqueue s.queue h.sized

section

variable (h : s.put? envelope = some s')

include h

theorem put_some :
    s' = { s with
      queue := s.queue ++ [.item envelope envelope.size]
      queuedBytes := s.queuedBytes + envelope.size } := by
  obtain ⟨_, h⟩ := Option.ite_none_left_eq_some.mp h
  cases h
  rfl

theorem line_put : s'.line = s.line ++ [envelope] := by
  rw [put_some h]
  show s.returned ++ (s.queue ++ [Entry.item envelope envelope.size]).filterMap _ = _
  rw [List.filterMap_append, ← List.append_assoc]
  rfl

theorem events_put :
    s'.events = s.events ++ envelope.event?.toList := by
  unfold events
  rw [line_put h, List.filterMap_append]
  cases hevent : envelope.event? with
  | none => simp [hevent]
  | some e => simp [hevent]

end

theorem Ok.put (h : s.Ok passed) (hlisted : s.listed = true) (hclosing : envelope.isClosing = false)
    (hevent : ∀ e, envelope.event? = some e →
      s.wants e = true ∧ e ∈ passed ∧ ∀ x ∈ s.events, x.cursor < e.cursor)
    (hput : s.put? envelope = some s') : s'.Ok passed ∧ s'.listed = true := by
  have hevents := events_put hput
  have hline := line_put hput
  have hs' := put_some hput
  have hwants : ∀ e, s'.wants e = s.wants e := fun e => by rw [hs']; rfl
  have hlisted' : s'.listed = true := by rw [hs']; exact hlisted
  refine ⟨⟨?_, ?_, ?_, ?_, ?_⟩, hlisted'⟩
  · intro e size hmem
    rw [hs'] at hmem
    rcases List.mem_append.mp hmem with hmem | hmem
    · exact h.sized e size hmem
    · cases List.mem_singleton.mp hmem
      rfl
  · rw [hs']
    show s.queuedBytes + envelope.size = ((s.queue ++ [_]).map Entry.bytes).sum
    rw [List.map_append, List.sum_append, ← h.bytes]
    rfl
  · rw [hevents]
    refine List.pairwise_append.mpr ⟨h.increasing, ?_, ?_⟩
    · cases envelope.event? with
      | none => exact List.Pairwise.nil
      | some e => exact List.pairwise_singleton _ e
    · intro x hx e he
      exact (hevent e (Option.mem_toList.mp he)).2.2 x hx
  · intro e he
    rw [hevents] at he
    rw [hwants]
    rcases List.mem_append.mp he with he | he
    · exact h.wanted e he
    · have hnew := hevent e (Option.mem_toList.mp he)
      exact ⟨hnew.1, hnew.2.1⟩
  · cases h.standing with
    | active _ hclosed hending hwas hentries hplain =>
      refine .active hlisted' (by rw [hs']; exact hclosed) (by rw [hs']; exact hending)
        (by rw [hs']; exact hwas) ?_ ?_
      · rw [hs']
        intro hmem
        rcases List.mem_append.mp hmem with hmem | hmem
        · exact hentries hmem
        · cases List.mem_singleton.mp hmem
      rw [hline]
      intro r hr
      rcases List.mem_append.mp hr with hr | hr
      · exact hplain r hr
      · rw [List.mem_singleton.mp hr]
        exact hclosing
    | ending _ hl _ _ _ _ _ _ | ended _ _ hl _ _ _ _ _ _ | dropped hl _ _ _ _ =>
      rw [hlisted] at hl
      cases hl

theorem events_eq (s : Subscription) : s.events =
    s.returned.filterMap Envelope.event? ++ s.pending.filterMap Envelope.event? :=
  List.filterMap_append

theorem event?_of_isClosing (h : envelope.isClosing = true) : envelope.event? = none := by
  cases envelope with
  | event e => cases h
  | snapshot | heartbeat | status => rfl

theorem Ok.replaceThenClose (h : s.Ok passed) (hclosing : envelope.isClosing = true) :
    (s.replaceThenClose envelope).Ok passed ∧ (s.replaceThenClose envelope).listed = false := by
  unfold Subscription.replaceThenClose
  split
  · rename_i hover
    refine ⟨h, ?_⟩
    cases h.standing with
    | active _ hclosed hending _ _ _ =>
      rcases hover with hover | hover
      · rw [hclosed] at hover
        cases hover
      · rw [hending] at hover
        cases hover
    | ending _ hl _ _ _ _ _ _ | ended _ _ hl _ _ _ _ _ _ | dropped hl _ _ _ _ => exact hl
  · rename_i hopen
    have hclosed : s.closed = false := by
      cases hc : s.closed with
      | false => rfl
      | true => exact absurd (.inl hc) hopen
    have hactive : s.wasClosed = false ∧ ∀ r ∈ s.returned, r.isClosing = false := by
      cases h.standing with
      | active _ _ _ hwas _ hplain =>
        exact ⟨hwas, fun r hr => hplain r (List.mem_append_left _ hr)⟩
      | ending _ _ _ hending _ _ _ _ => exact absurd (.inr hending) hopen
      | ended _ _ _ hc _ _ _ _ _ | dropped _ hc _ _ _ => exact absurd (.inl hc) hopen
    have hevents : s.events = s.returned.filterMap Envelope.event? ++ _ := s.events_eq
    have hleft : Subscription.events { s with
        listed := false
        queue := [.item envelope envelope.size]
        queuedBytes := envelope.size
        closeAfterDelivery := true } = s.returned.filterMap Envelope.event? := by
      rw [events_eq]
      show _ ++ [envelope].filterMap Envelope.event? = _
      rw [List.filterMap_cons_none (event?_of_isClosing hclosing)]
      exact List.append_nil _
    refine ⟨⟨?_, ?_, ?_, ?_, ?_⟩, rfl⟩
    · intro e size hmem
      cases List.mem_singleton.mp hmem
      rfl
    · exact (Nat.add_zero _).symm
    · rw [hleft]
      have hincreasing := h.increasing
      rw [hevents] at hincreasing
      exact (List.pairwise_append.mp hincreasing).1
    · intro e he
      rw [hleft] at he
      apply h.wanted e
      rw [hevents]
      exact List.mem_append_left _ he
    · exact .ending envelope rfl hclosed rfl hactive.1 rfl hclosing hactive.2

theorem Ok.offer {snapshot : Envelope} (h : s.Ok passed) (hlisted : s.listed = true)
    (hclosing : envelope.isClosing = false) (hsnapshot : snapshot.isClosing = true)
    (hevent : ∀ e, envelope.event? = some e →
      s.wants e = true ∧ e ∈ passed ∧ ∀ x ∈ s.events, x.cursor < e.cursor) :
    (s.offer envelope snapshot).Ok passed ∧
      ((s.offer envelope snapshot).listed = true →
        (s.offer envelope snapshot).events = s.events ++ envelope.event?.toList) := by
  unfold Subscription.offer
  cases hput : s.put? envelope with
  | some s' =>
    exact ⟨(h.put hlisted hclosing hevent hput).1, fun _ => events_put hput⟩
  | none =>
    have hreplaced := h.replaceThenClose hsnapshot
    refine ⟨hreplaced.1, ?_⟩
    intro hl
    rw [show (s.replaceThenClose snapshot).listed = true from hl] at hreplaced
    cases hreplaced.2

theorem wants_replaceThenClose (s : Subscription) (envelope : Envelope) (e : EventRecord) :
    (s.replaceThenClose envelope).wants e = s.wants e := by
  unfold Subscription.replaceThenClose
  split
  · rfl
  · rfl

theorem wants_offer (s : Subscription) (envelope snapshot : Envelope) (e : EventRecord) :
    (s.offer envelope snapshot).wants e = s.wants e := by
  unfold Subscription.offer
  cases hput : s.put? envelope with
  | some s' =>
    rw [put_some hput]
    rfl
  | none => exact wants_replaceThenClose s snapshot e

theorem Ok.close (h : s.Ok passed) : s.close.Ok passed ∧ s.close.listed = false := by
  unfold Subscription.close
  split
  · rename_i hclosed
    refine ⟨h, ?_⟩
    cases h.standing with
    | active _ hc _ _ _ _ =>
      rw [hclosed] at hc
      cases hc
    | ending _ hl _ _ _ _ _ _ | ended _ _ hl _ _ _ _ _ _ | dropped hl _ _ _ _ => exact hl
  · rename_i hopen
    have hplain : ∀ r ∈ s.returned, r.isClosing = false := by
      cases h.standing with
      | active _ _ _ _ _ hplain => exact fun r hr => hplain r (List.mem_append_left _ hr)
      | ending _ _ _ _ _ _ _ hplain => exact hplain
      | ended _ _ _ hc _ _ _ _ _ | dropped _ hc _ _ _ => exact absurd hc hopen
    have hevents := s.events_eq
    have hleft : Subscription.events { s with
        closed := true
        closeAfterDelivery := false
        listed := false
        queue := [.close]
        queuedBytes := 0
        wasClosed := true } = s.returned.filterMap Envelope.event? := by
      rw [events_eq]
      exact List.append_nil _
    refine ⟨⟨?_, rfl, ?_, ?_, .dropped rfl rfl rfl rfl hplain⟩, rfl⟩
    · intro e size hmem
      cases List.mem_singleton.mp hmem
    · rw [hleft]
      have hincreasing := h.increasing
      rw [hevents] at hincreasing
      exact (List.pairwise_append.mp hincreasing).1
    · intro e he
      rw [hleft] at he
      apply h.wanted e
      rw [hevents]
      exact List.mem_append_left _ he

theorem Ok.get (h : s.Ok passed) (hget : s.get = some s') : s'.Ok passed := by
  obtain ⟨_, hget⟩ := Option.ite_none_left_eq_some.mp hget
  cases hget
  refine ⟨h.sized, h.bytes, h.increasing, h.wanted, ?_⟩
  cases h.standing with
  | active hl hc he hw hq hp => exact .active hl hc he hw hq hp
  | ending last hl hc he hw hq hlast hp => exact .ending last hl hc he hw hq hlast hp
  | ended before last hl hc hw hq hr hlast hp => exact .ended before last hl hc hw hq hr hlast hp
  | dropped hl hc hw hpe hp => exact .dropped hl hc hw hpe hp

theorem line_wake (hwake : s.wake = some s') : s'.line = s.line := by
  unfold Subscription.wake at hwake
  obtain ⟨_, hwake⟩ := Option.ite_none_left_eq_some.mp hwake
  split at hwake
  · cases hwake
  · rename_i hqueue
    cases hwake
    unfold line pending
    rw [hqueue]
    rfl
  · rename_i hqueue
    cases hwake
    unfold line pending
    rw [hqueue]
    exact List.append_assoc _ [_] _

theorem wants_wake (hwake : s.wake = some s') (e : EventRecord) : s'.wants e = s.wants e := by
  unfold Subscription.wake at hwake
  obtain ⟨_, hwake⟩ := Option.ite_none_left_eq_some.mp hwake
  split at hwake
  · cases hwake
  · cases hwake
    rfl
  · cases hwake
    rfl

theorem Ok.standing_wake (h : s.Ok passed) (hwake : s.wake = some s') : s'.Standing := by
  have hline := line_wake hwake
  unfold Subscription.wake at hwake
  obtain ⟨_, hwake⟩ := Option.ite_none_left_eq_some.mp hwake
  split at hwake
  · cases hwake
  · rename_i rest hqueue
    cases hwake
    cases h.standing with
    | active _ _ _ _ hentries _ =>
      rw [hqueue] at hentries
      exact absurd List.mem_cons_self hentries
    | ending _ _ _ _ _ hq _ _ =>
      rw [hqueue] at hq
      cases hq
    | ended _ _ _ _ _ hq _ _ _ =>
      rw [hqueue] at hq
      cases hq
    | dropped hl _ hw hpending hplain =>
      unfold pending at hpending
      rw [hqueue] at hpending
      exact .dropped hl rfl hw hpending hplain
  · rename_i envelope size rest hqueue
    cases hwake
    cases h.standing with
    | active hl hclosed hending hwas hentries hplain =>
      rw [hqueue] at hentries
      refine .active hl ?_ rfl hwas (fun hmem => hentries (List.mem_cons_of_mem _ hmem)) ?_
      · show (s.closed || s.closeAfterDelivery) = false
        rw [hclosed, hending]
        rfl
      · rw [hline]
        exact hplain
    | ending last hl hclosed hending hwas hq hlast hplain =>
      rw [hqueue] at hq
      cases hq
      refine .ended s.returned envelope hl ?_ hwas rfl rfl hlast hplain
      show (s.closed || s.closeAfterDelivery) = true
      rw [hending, Bool.or_true]
    | ended _ _ _ _ _ hq _ _ _ =>
      rw [hqueue] at hq
      cases hq
    | dropped _ _ _ hpending _ =>
      unfold pending at hpending
      rw [hqueue] at hpending
      cases hpending

theorem Ok.wake (h : s.Ok passed) (hwake : s.wake = some s') : s'.Ok passed := by
  have hevents : s'.events = s.events := by
    unfold events
    rw [line_wake hwake]
  refine ⟨?_, ?_, ?_, ?_, h.standing_wake hwake⟩
  · intro e size hmem
    apply h.sized e size
    unfold Subscription.wake at hwake
    obtain ⟨_, hwake⟩ := Option.ite_none_left_eq_some.mp hwake
    split at hwake
    · cases hwake
    · rename_i hqueue
      cases hwake
      rw [hqueue]
      exact List.mem_cons_of_mem _ hmem
    · rename_i hqueue
      cases hwake
      rw [hqueue]
      exact List.mem_cons_of_mem _ hmem
  · have hbytes := h.bytes
    unfold Subscription.wake at hwake
    obtain ⟨_, hwake⟩ := Option.ite_none_left_eq_some.mp hwake
    split at hwake
    · cases hwake
    · rename_i rest hqueue
      cases hwake
      rw [hqueue] at hbytes
      show s.queuedBytes = (rest.map Entry.bytes).sum
      rw [hbytes]
      exact Nat.zero_add _
    · rename_i envelope size rest hqueue
      cases hwake
      rw [hqueue] at hbytes
      show s.queuedBytes - size = (rest.map Entry.bytes).sum
      rw [hbytes]
      exact Nat.add_sub_cancel_left size _
  · rw [hevents]
    exact h.increasing
  · intro e he
    rw [hevents] at he
    rw [wants_wake hwake]
    exact h.wanted e he

/-! ## What is returned -/

/-- Nothing is handed over after a closing envelope. -/
theorem Ok.closing_last (h : s.Ok passed) {before after : List Envelope}
    (hreturned : s.returned = before ++ envelope :: after) (hclosing : envelope.isClosing = true) :
    after = [] := by
  have hmem : envelope ∈ s.returned := by
    rw [hreturned]
    exact List.mem_append_right _ List.mem_cons_self
  have hno : (∀ r ∈ s.returned, r.isClosing = false) → after = [] := by
    intro hplain
    have hnot := hplain envelope hmem
    rw [hclosing] at hnot
    cases hnot
  cases h.standing with
  | active _ _ _ _ _ hplain => exact hno fun r hr => hplain r (List.mem_append_left _ hr)
  | ending _ _ _ _ _ _ _ hplain => exact hno hplain
  | ended first last _ _ _ _ hall _ hplain =>
    rcases List.eq_nil_or_concat after with hnil | ⟨more, final, hafter⟩
    · exact hnil
    rw [hall, hafter, List.concat_eq_append, ← List.cons_append,
      ← List.append_assoc] at hreturned
    have hfirst := (List.append_inj' hreturned rfl).1
    have hin : envelope ∈ first := by
      rw [hfirst]
      exact List.mem_append_right _ List.mem_cons_self
    have hnot := hplain envelope hin
    rw [hclosing] at hnot
    cases hnot
  | dropped _ _ _ _ hplain => exact hno hplain

end Subscription

end CodexBridge.Stream
