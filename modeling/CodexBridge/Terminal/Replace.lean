import CodexBridge.Terminal.Duty

/-! # Another terminal can follow

The threads that are under way take every reachable state to one in which no operation runs, no
session holds anything and none is in the way of the next. No caller has to do anything for it.
-/

namespace CodexBridge.Terminal

def Label.isThread : Label → Bool
  | .openStep _ => true
  | .clientClose _ => true
  | .release => true
  | .commandEnds _ _ => true
  | .finish _ => true
  | .writeChecked _ => true
  | .writeReturns _ _ => true
  | .resizeReturns => true
  | _ => false

def Leads (maximumBytes : Nat) (w v : World) : Prop :=
  ∃ labels, labels.all Label.isThread = true ∧ Runs.exec (World.next maximumBytes) w labels = some v

namespace Leads

variable {maximumBytes : Nat} {w v u : World}

theorem refl (w : World) : Leads maximumBytes w w := ⟨[], rfl, rfl⟩

theorem step {label : Label} (hthread : label.isThread = true)
    (hs : w.next maximumBytes label = some v) (h : Leads maximumBytes v u) :
    Leads maximumBytes w u := by
  obtain ⟨labels, hall, hexec⟩ := h
  refine ⟨label :: labels, ?_, ?_⟩
  · rw [List.all_cons, hthread, hall]
    rfl
  · rw [Runs.exec_cons_eq_some_iff]
    exact ⟨v, hs, hexec⟩

theorem trans (h : Leads maximumBytes w v) (hu : Leads maximumBytes v u) :
    Leads maximumBytes w u := by
  obtain ⟨first, hfirst, hv⟩ := h
  obtain ⟨second, hsecond, hw⟩ := hu
  refine ⟨first ++ second, ?_, ?_⟩
  · rw [List.all_append, hfirst, hsecond]
    rfl
  · rw [Runs.exec_append, hv, Option.bind_some, hw]

end Leads

/-! ## The operation comes to its end -/

def Operation.rank : Operation → Nat
  | .idle => 0
  | .opening _ .checking => 2
  | .opening _ .creating => 2
  | .opening _ .starting => 3
  | .opening _ .running => 2
  | .opening _ .watching => 1
  | .opening _ .failing => 2
  | .opening _ .releasing => 1
  | .writing _ _ => 2
  | .sending _ _ => 1
  | .resizing _ => 1
  | .stopping _ => 1
  | .finishing _ => 2
  | .releasing _ => 1

theorem rank_stop (w : World) (k : Nat) (message : Message) :
    (w.stop k message).operation.rank ≤ 1 := by
  unfold World.stop
  split
  · exact Nat.zero_le 1
  split
  · exact Nat.zero_le 1
  · exact Nat.le_refl 1

variable {w : World}

variable (maximumBytes : Nat)

theorem next_release {k : Nat} (hop : w.operation = .releasing k) : w.next maximumBytes .release =
      some ((w.update k fun s => { s.release with state := .closed, waiter := .done }).withOperation
        .idle) := by
  simp only [World.next, World.release, hop]

/-- A step of the operation that brings it nearer to its end. -/
theorem Duty.advances (h : Duty w)
    (hw : w.operation ≠ .idle) : ∃ label v, label.isThread = true ∧ w.isSafe label = true ∧
      w.next maximumBytes label = some v ∧ v.operation.rank < w.operation.rank := by
  have hsafe : w.isSafe (.clientClose false) = true := by
    dsimp only [World.isSafe]
    split
    · rfl
    · rfl
  cases hop : w.operation with
  | idle => exact absurd hop hw
  | opening k stage =>
    cases stage with
    | checking =>
      refine ⟨.openStep true, w.withOperation (.opening k .releasing), rfl, ?_, ?_, ?_⟩
      · simp [World.isSafe, hop]
      · simp [World.next, World.openStep, hop]
      · show 1 < 2
        omega
    | creating =>
      refine ⟨.openStep true, w.withOperation (.opening k .releasing), rfl, ?_, ?_, ?_⟩
      · simp [World.isSafe, hop]
      · simp [World.next, World.openStep, hop]
      · show 1 < 2
        omega
    | starting =>
      refine ⟨.openStep true, w.withOperation (.opening k .failing), rfl, ?_, ?_, ?_⟩
      · simp [World.isSafe, hop]
      · simp [World.next, World.openStep, hop]
      · show 2 < 3
        omega
    | running =>
      refine ⟨.openStep false,
        (w.update k fun s => { s with waiter := .requesting }).withOperation
          (.opening k .watching), rfl, ?_, ?_, ?_⟩
      · simp [World.isSafe, hop]
      · simp [World.next, World.openStep, hop]
      · show 1 < 2
        omega
    | watching =>
      refine ⟨.openStep false,
        (w.update k fun s => { s with watch := .watching }).withOperation .idle,
        rfl, ?_, ?_, ?_⟩
      · simp [World.isSafe, hop]
      · simp [World.next, World.openStep, hop]
      · show 0 < 1
        omega
    | failing =>
      have hcloses : w.operation.closes = some k := by rw [hop]; rfl
      have hnot := h.not_failed hsafe hcloses
      refine ⟨.clientClose false,
        (w.update k fun s => (s.closeClient false).1).withOperation (.opening k .releasing),
        rfl, hsafe, ?_, ?_⟩
      · simp only [World.next, World.clientClose, hop, if_neg hnot]
      · show 1 < 2
        omega
    | releasing =>
      refine ⟨.release, (w.update k Session.release).withOperation .idle, rfl, rfl, ?_, ?_⟩
      · simp [World.next, World.release, hop]
      · show 0 < 1
        omega
  | writing k sequence =>
    refine ⟨.writeChecked false, w.stop k .accessChanged, rfl, rfl, ?_, ?_⟩
    · simp [World.next, World.writeChecked, hop]
    · exact Nat.lt_of_le_of_lt (rank_stop w k _) (Nat.lt_succ_self 1)
  | sending k sequence =>
    refine ⟨.writeReturns true false,
      (w.update k fun s => { s with inputs := s.inputs ++ [sequence] }).withOperation .idle,
      rfl, rfl, ?_, ?_⟩
    · simp [World.next, World.writeReturns, hop]
    · show 0 < 1
      omega
  | resizing k =>
    refine ⟨.resizeReturns, w.withOperation .idle, rfl, rfl, ?_, ?_⟩
    · simp [World.next, hop]
    · show 0 < 1
      omega
  | stopping k =>
    refine ⟨.clientClose false,
      (w.update k fun s => (s.closeClient false).1).withOperation .idle, rfl, hsafe, ?_, ?_⟩
    · simp only [World.next, World.clientClose, hop]
    · show 0 < 1
      omega
  | finishing k =>
    have hcloses : w.operation.closes = some k := by rw [hop]; rfl
    have hnot := h.not_failed hsafe hcloses
    refine ⟨.clientClose false,
      (w.update k fun s => (s.closeClient false).1).withOperation (.releasing k),
      rfl, hsafe, ?_, ?_⟩
    · simp only [World.next, World.clientClose, hop, if_neg hnot]
    · show 1 < 2
      omega
  | releasing k =>
    refine ⟨.release, _, rfl, rfl, next_release maximumBytes hop, ?_⟩
    · show 0 < 1
      omega

theorem Duty.leads_idle (h : Duty w) :
    ∃ v, Leads maximumBytes w v ∧ Duty v ∧ v.operation = .idle := by
  induction hrank : w.operation.rank using Nat.strongRecOn generalizing w with
  | _ rank ih =>
    by_cases hidle : w.operation = .idle
    · exact ⟨w, Leads.refl w, h, hidle⟩
    obtain ⟨label, v, hthread, hsafe, hs, hlt⟩ := h.advances maximumBytes hidle
    rw [hrank] at hlt
    obtain ⟨u, hu, hduty, hend⟩ := ih _ hlt (h.next hsafe hs) rfl
    exact ⟨u, Leads.step hthread hs hu, hduty, hend⟩

/-- No operation runs, nothing is held, and no session is in the way. -/
structure World.IsFree (w : World) : Prop where
  idle : w.operation = .idle
  replaceable : w.isOccupied = false
  released : ∀ (k : Nat) s, w.sessions[k]? = some s → s.lease = false ∧ s.reservation = false

/-- With nobody waiting for a command all is given back. -/
theorem Duty.isFree (h : Duty w) (hidle : w.operation = .idle)
    (hnone : ∀ (k : Nat) s, w.sessions[k]? = some s → s.isLive = false) : w.IsFree where
  idle := hidle
  replaceable := by
    unfold World.isOccupied
    cases hcurrent : w.current with
    | none => rfl
    | some k =>
      rw [Option.bind_some]
      cases hs : w.sessions[k]? with
      | none => rfl
      | some s =>
        have hfits := h.fits k s hs
        have hclosed : s.state = .closed := by
          by_contra hopen
          cases hfits.placed hcurrent hopen with
          | inl hlive =>
            rw [hnone k s hs] at hlive
            cases hlive
          | inr hopening =>
            rw [hidle] at hopening
            cases hopening
        simp [hclosed]
  released := by
    intro k s hs
    apply (h.fits k s hs).rests (hnone k s hs)
    intro stage heq
    rw [hidle] at heq
    cases heq

theorem Duty.eq_of_isLive (h : Duty w) {j k : Nat} {s t : Session}
    (hs : w.sessions[j]? = some s) (ht : w.sessions[k]? = some t) (hsl : s.isLive = true)
    (htl : t.isLive = true) : j = k := by
  have hj := ((h.fits j s hs).live hsl).1
  have hk := ((h.fits k t ht).live htl).1
  rw [hj] at hk
  exact Option.some.inj hk

/-- The thread closes the client, gives back and marks the session. -/
theorem Duty.leads_finished (h : Duty w)
    (hidle : w.operation = .idle) {k : Nat} {s : Session} (hs : w.sessions[k]? = some s)
    (hended : s.waiter = .ended) : ∃ v, Leads maximumBytes w v ∧ v.IsFree := by
  have hlive : s.isLive = true := by simp [Session.isLive, hended]
  have hfinish : w.next maximumBytes (.finish k) = some (w.withOperation (.finishing k)) := by
    simp [World.next, World.finish, hs, hidle, hended]
  have hfinishing : Duty (w.withOperation (.finishing k)) := h.next rfl hfinish
  have hsafe : (w.withOperation (.finishing k)).isSafe (.clientClose false) = true := by
    dsimp only [World.isSafe]
    split
    · rfl
    · rfl
  have hnot := hfinishing.not_failed hsafe (k := k) rfl
  have hclose : (w.withOperation (.finishing k)).next maximumBytes (.clientClose false) =
      some (((w.withOperation (.finishing k)).update k
        fun s => (s.closeClient false).1).withOperation (.releasing k)) := by
    simp only [World.next, World.clientClose]
    exact if_neg hnot
  have hreleasing := hfinishing.next hsafe hclose
  have hrelease := next_release maximumBytes (k := k) (w := ((w.withOperation (.finishing k)).update
    k fun s => (s.closeClient false).1).withOperation (.releasing k)) rfl
  have hduty := hreleasing.next rfl hrelease
  have hleads := Leads.step rfl hclose (Leads.step rfl hrelease (Leads.refl _))
  refine ⟨_, Leads.step rfl hfinish hleads, hduty.isFree rfl ?_⟩
  intro j t ht
  dsimp only [World.withOperation] at ht
  rw [getElem?_update] at ht
  split at ht
  · obtain ⟨_, _, heq⟩ := Option.map_eq_some_iff.mp ht
    rw [← heq]
    rfl
  rename_i hne
  dsimp only at ht
  rw [getElem?_update, if_neg hne] at ht
  cases htl : t.isLive with
  | false => rfl
  | true => exact absurd (h.eq_of_isLive hs ht hlive htl) hne

/-- The threads under way lead to a terminal that can be opened again. -/
theorem Duty.leads_free (h : Duty w) : ∃ v, Leads maximumBytes w v ∧ v.IsFree := by
  obtain ⟨u, hu, hduty, hidle⟩ := h.leads_idle maximumBytes
  by_cases hnone : ∀ (k : Nat) s, u.sessions[k]? = some s → s.isLive = false
  · exact ⟨u, hu, hduty.isFree hidle hnone⟩
  simp only [not_forall] at hnone
  obtain ⟨k, s, hs, hlive⟩ := hnone
  rw [Bool.not_eq_false, Session.isLive, Bool.or_eq_true, decide_eq_true_eq,
    decide_eq_true_eq] at hlive
  cases hlive with
  | inr hended =>
    obtain ⟨v, hv, hfree⟩ := hduty.leads_finished maximumBytes hidle hs hended
    exact ⟨v, hu.trans hv, hfree⟩
  | inl hwaits =>
    have hends : u.next maximumBytes (.commandEnds k none) =
        some (u.update k fun _ => s.commandEnds none) := by
      simp [World.next, World.onSession, hs, hwaits]
    have hsession : (u.update k fun _ => s.commandEnds none).sessions[k]? =
        some (s.commandEnds none) := by
      rw [getElem?_update, if_pos rfl, hs]
      rfl
    have hended := hduty.next rfl hends
    obtain ⟨v, hv, hfree⟩ := hended.leads_finished maximumBytes hidle
      hsession rfl
    exact ⟨v, hu.trans (Leads.step rfl hends hv), hfree⟩

end CodexBridge.Terminal
