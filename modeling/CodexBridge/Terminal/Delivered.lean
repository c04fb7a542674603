import CodexBridge.Terminal.Delivery
import CodexBridge.Terminal.Duty

/-! # Output and input over whole runs

Every step keeps what a session says of its output, as long as no step drops a delta that is due
without a word. The input goes out by number in any run.
-/

namespace CodexBridge.Terminal

/-! ## The condition -/

def Session.hasDue (s : Session) : Bool :=
  match s.client with
  | none => false
  | some c => c.queue.any Notification.isDue

/-- The callback of the delta drops it without a word: the session is over, or the thread of its
stop does not start. -/
def Session.losesDelta (starts : Bool) (s : Session) : Bool :=
  match s.client.bind Client.current with
  | none => false
  | some n => n.isDue && !s.mayTell && if n.isBytes then s.isOver else !starts

/-- The thread of a dropped delta comes too late to say so. -/
def Session.losesStop (s : Session) (index : Nat) : Bool :=
  match s.stops[index]? with
  | none => false
  | some thread => thread.dropped && s.isOver && !s.message.tells

/-- No delta that is due goes without a word. -/
def World.isClean (w : World) : Label → Bool
  | .callback k starts => !(w.sessions[k]?.map (Session.losesDelta starts)).getD false
  | .asyncStop k index => !(w.sessions[k]?.map fun s => s.losesStop index).getD false
  | .discard k => !(w.sessions[k]?.map fun s => s.hasDue && !s.mayTell).getD false
  | .clientClose _ =>
    match w.operation.closes.bind fun k => w.sessions[k]? with
    | none => true
    | some s => !(s.canRaise && s.hasDue && !s.mayTell)
  | _ => true

def Session.isNumbered (s : Session) : Prop := s.inputs = List.range' 1 s.inputs.length

/-- Where `write` stands with a session. -/
structure Inputs (operation : Operation) (k : Nat) (s : Session) : Prop where
  numbered : s.isNumbered
  rests : (∀ q, operation ≠ .sending k q) → s.isOver = true ∨ s.inputSequence = s.inputs.length
  writing : ∀ q, operation = .writing k q → s.isOver = false
  sending : ∀ q, operation = .sending k q →
    q = s.inputSequence ∧ s.inputSequence = s.inputs.length + 1

def Operation.isSilent : Operation → Bool
  | .writing _ _ => false
  | .sending _ _ => false
  | _ => true

theorem Operation.ne_sending {operation : Operation} (h : operation.isSilent = true)
    (k q : Nat) : operation ≠ .sending k q := by
  intro heq
  rw [heq] at h
  cases h

theorem inputs_silent {operation : Operation} {k : Nat} {s : Session}
    (hsilent : operation.isSilent = true) (hnumbered : s.isNumbered)
    (hrests : s.isOver = true ∨ s.inputSequence = s.inputs.length) : Inputs operation k s where
  numbered := hnumbered
  rests := fun _ => hrests
  writing := by
    intro q heq
    rw [heq] at hsilent
    cases hsilent
  sending := by
    intro q heq
    rw [heq] at hsilent
    cases hsilent

structure Sound (operation : Operation) (k : Nat) (s : Session) : Prop where
  kept : Kept s
  tells : Tells s
  inputs : Inputs operation k s

/-- Nothing changes in the output, in the input and in what is said of them. -/
structure Quiet (s t : Session) : Prop where
  output : t.output = s.output
  log : t.log = s.log
  appended : t.appended = s.appended
  reader : t.reader = s.reader
  message : t.message = s.message
  stops : t.stops = s.stops
  received : t.received = s.received
  inputs : t.inputs = s.inputs
  inputSequence : t.inputSequence = s.inputSequence
  ended : s.isOver = true → t.isOver = true
  waiting : s.mayTell = true ∨
    t.waiting.filter Notification.isDue = s.waiting.filter Notification.isDue

namespace Quiet

variable {s t : Session}

theorem refl (s : Session) : Quiet s s :=
  ⟨rfl, rfl, rfl, rfl, rfl, rfl, rfl, rfl, rfl, id, Or.inr rfl⟩

section

variable (h : Quiet s t)

include h

theorem kept (hs : Kept s) : Kept t :=
  hs.congr h.output h.log h.appended h.reader

theorem tells (hs : Tells s) : Tells t :=
  hs.congr h.message h.ended h.stops h.received h.appended h.waiting

theorem isNumbered (hs : s.isNumbered) : t.isNumbered := by
  unfold Session.isNumbered
  rw [h.inputs]
  exact hs

theorem rests (hs : s.isOver = true ∨ s.inputSequence = s.inputs.length) :
    t.isOver = true ∨ t.inputSequence = t.inputs.length := by
  rw [h.inputs, h.inputSequence]
  cases hs with
  | inl hover => exact Or.inl (h.ended hover)
  | inr heq => exact Or.inr heq

theorem sound {a b : Operation} {k : Nat} (hs : Sound a k s)
    (ha : ∀ q, a ≠ .sending k q) (hb : b.isSilent = true) : Sound b k t where
  kept := h.kept hs.kept
  tells := h.tells hs.tells
  inputs := inputs_silent hb (h.isNumbered hs.inputs.numbered) (h.rests (hs.inputs.rests ha))

theorem goesOn (hover : t.isOver = s.isOver) {operation : Operation} {k : Nat}
    (hs : Sound operation k s) : Sound operation k t where
  kept := h.kept hs.kept
  tells := h.tells hs.tells
  inputs := {
    numbered := h.isNumbered hs.inputs.numbered
    rests := fun hne => h.rests (hs.inputs.rests hne)
    writing := by
      rw [hover]
      exact hs.inputs.writing
    sending := by
      rw [h.inputs, h.inputSequence]
      exact hs.inputs.sending }

end

end Quiet

def Delivers (w : World) : Prop :=
  ∀ (k : Nat) s, w.sessions[k]? = some s → Sound w.operation k s

theorem delivers_initial : Delivers World.initial := by
  intro k s hs
  cases hs

namespace Delivers

variable {w v : World}

theorem quiet (h : Delivers w) (hw : w.operation.isSilent = true)
    (hv : v.operation.isSilent = true) (hsessions : ∀ (k : Nat) t, v.sessions[k]? = some t →
      ∃ s, w.sessions[k]? = some s ∧ Quiet s t) : Delivers v := by
  intro k t ht
  obtain ⟨s, hs, hquiet⟩ := hsessions k t ht
  exact hquiet.sound (h k s hs) (Operation.ne_sending hw k) hv

variable {k : Nat}

theorem update_quiet {f : Session → Session}
    (hf : ∀ s, w.sessions[k]? = some s → Quiet s (f s)) (j : Nat) (t : Session)
    (ht : (w.update k f).sessions[j]? = some t) : ∃ s, w.sessions[j]? = some s ∧ Quiet s t := by
  rw [getElem?_update] at ht
  split at ht
  · rename_i heq
    obtain ⟨s, hs, hft⟩ := Option.map_eq_some_iff.mp ht
    rw [← heq] at hs ⊢
    exact ⟨s, hs, hft ▸ hf s hs⟩
  · exact ⟨t, ht, Quiet.refl t⟩

theorem touches (h : Delivers w) {f : Session → Session}
    (hf : ∀ s, w.sessions[k]? = some s → Sound w.operation k s → Sound w.operation k (f s)) :
    Delivers (w.update k f) := by
  intro j t ht
  rw [getElem?_update] at ht
  split at ht
  · rename_i heq
    obtain ⟨s, hs, hft⟩ := Option.map_eq_some_iff.mp ht
    rw [← heq] at hs ⊢
    rw [← hft]
    exact hf s hs (h k s hs)
  · exact h j t ht

theorem onSession (h : Delivers w) {f : Session → Option Session}
    (hf : ∀ s t, w.sessions[k]? = some s → f s = some t → Sound w.operation k s →
      Sound w.operation k t) (hs : w.onSession k f = some v) : Delivers v := by
  unfold World.onSession at hs
  cases hsession : w.sessions[k]? with
  | none =>
    rw [hsession] at hs
    cases hs
  | some s =>
    rw [hsession] at hs
    obtain ⟨t, ht, hv⟩ := Option.map_eq_some_iff.mp hs
    rw [← hv]
    apply h.touches
    intro found hfound hsound
    rw [hsession] at hfound
    cases hfound
    exact hf s t hsession ht hsound

theorem onClient (h : Delivers w) {f : Session → Client → Option Session}
    (hf : ∀ s c t, w.sessions[k]? = some s → s.client = some c → f s c = some t →
      Sound w.operation k s → Sound w.operation k t)
    (hs : w.onClient k f = some v) : Delivers v := by
  apply h.onSession _ hs
  intro s t hsession ht hsound
  cases hc : s.client with
  | none =>
    rw [hc] at ht
    cases ht
  | some c =>
    rw [hc] at ht
    exact hf s c t hsession hc ht hsound

/-- `_stop` with the operation lock: who is not over yet is closed with the message. -/
theorem stop {message : Message}
    (hothers : ∀ (j : Nat) s, j ≠ k → w.sessions[j]? = some s → Sound .idle j s)
    (hk : ∀ s, w.sessions[k]? = some s → Kept s ∧ s.isNumbered ∧ (s.isOver = true → Tells s) ∧
      (s.isOver = false → Tells { s with state := .closing, message := message })) :
    Delivers (w.stop k message) := by
  have hplain : ∀ (j : Nat) s operation, operation.isSilent = true → j ≠ k →
      w.sessions[j]? = some s → Sound operation j s := by
    intro j s operation hsilent hne hs
    exact (Quiet.refl s).sound (hothers j s hne hs) (Operation.ne_sending rfl j) hsilent
  unfold World.stop
  cases hsession : w.sessions[k]? with
  | none =>
    intro j s hs
    apply hplain j s _ rfl _ hs
    intro heq
    rw [heq] at hs
    rw [World.withOperation, hsession] at hs
    cases hs
  | some s =>
    obtain ⟨hkept, hnumbered, htells, hstops⟩ := hk s hsession
    dsimp only
    split
    · rename_i hover
      intro j t ht
      by_cases heq : j = k
      · rw [heq] at ht
        rw [World.withOperation, hsession] at ht
        cases ht
        exact ⟨hkept, htells hover, inputs_silent rfl hnumbered (Or.inl hover)⟩
      · exact hplain j t _ rfl heq ht
    · rename_i hover
      intro j t ht
      rw [World.withOperation, getElem?_update] at ht
      split at ht
      · rename_i heq
        rw [← heq, hsession] at ht
        cases ht
        refine ⟨hkept.congr rfl rfl rfl rfl, hstops (by simpa using hover), ?_⟩
        exact inputs_silent rfl hnumbered (Or.inl rfl)
      · rename_i hne
        exact hplain j t _ rfl (fun heq => hne heq.symm) ht

/-! ## Opening and closing -/

theorem openSession (h : Delivers w) (hs : w.openSession = some v) : Delivers v := by
  unfold World.openSession at hs
  rcases Option.ite_none_left_eq_some.mp hs with ⟨hguard, hs⟩
  simp only [Bool.or_eq_true, not_or, ne_eq, decide_not, Bool.not_eq_true',
    decide_eq_false_iff_not, not_not] at hguard
  have hidle := hguard.1.1.1
  rw [← Option.some.inj hs]
  intro k s hk
  dsimp only at hk ⊢
  by_cases heq : k = w.sessions.length
  · rw [heq, List.getElem?_concat_length] at hk
    rw [← Option.some.inj hk]
    exact ⟨kept_fresh, tells_fresh, inputs_silent rfl rfl (Or.inr rfl)⟩
  have hlt : k < w.sessions.length := by
    have hbound := (List.getElem?_eq_some_iff.mp hk).1
    rw [List.length_append, List.length_singleton] at hbound
    omega
  rw [List.getElem?_append_left hlt] at hk
  apply (Quiet.refl s).sound (h k s hk) _ rfl
  intro q
  rw [hidle]
  intro hsending
  cases hsending

/-- The opening changes neither output nor input. -/
theorem openStep (h : Delivers w) (hduty : Duty w) {raises : Bool}
    (hs : w.openStep raises = some v) : Delivers v := by
  unfold World.openStep at hs
  cases hop : w.operation with
  | opening k stage =>
    rw [hop] at hs
    have hsilent : w.operation.isSilent = true := by rw [hop]; rfl
    have hstays : ∀ operation, operation.isSilent = true →
        Delivers (w.withOperation operation) := by
      intro operation hv
      exact h.quiet hsilent hv fun j t ht => ⟨t, ht, Quiet.refl t⟩
    have hchanges : ∀ f operation, operation.isSilent = true →
        (∀ s, w.sessions[k]? = some s → Quiet s (f s)) →
        Delivers ((w.update k f).withOperation operation) := by
      intro f operation hv hf
      exact h.quiet hsilent hv (update_quiet hf)
    cases raises with
    | true =>
      cases stage with
      | failing | releasing => cases hs
      | _ =>
        rw [← Option.some.inj hs]
        exact hstays _ rfl
    | false =>
      cases stage with
      | checking | running | watching =>
        rw [← Option.some.inj hs]
        apply hchanges _ _ rfl
        intro s _
        exact ⟨rfl, rfl, rfl, rfl, rfl, rfl, rfl, rfl, rfl, id, Or.inr rfl⟩
      | creating =>
        rw [← Option.some.inj hs]
        apply hchanges _ _ rfl
        intro s hk
        have hflags := ((hduty.fits k s hk).stage _ hop).1
        have hnone : s.client = none := by simpa [Session.flags] using hflags
        refine ⟨rfl, rfl, rfl, rfl, rfl, rfl, rfl, rfl, rfl, id, Or.inr ?_⟩
        rw [Session.waiting, Session.waiting, hnone]
        rfl
      | starting =>
        rw [← Option.some.inj hs]
        exact h.quiet hsilent rfl fun j t ht => ⟨t, ht, Quiet.refl t⟩
      | failing | releasing => cases hs
  | _ =>
    rw [hop] at hs
    cases hs

theorem quiet_closeClient {s : Session} {raises : Bool}
    (hclean : (s.canRaise && s.hasDue && !s.mayTell) = false) :
    Quiet s (s.closeClient raises).1 := by
  unfold Session.closeClient
  cases hc : s.client with
  | none => exact Quiet.refl s
  | some c =>
    dsimp only
    split
    · exact Quiet.refl s
    rename_i hopen
    split
    · refine ⟨rfl, rfl, rfl, rfl, rfl, rfl, rfl, rfl, rfl, id, Or.inr ?_⟩
      rw [Session.waiting, Session.waiting, hc]
      rfl
    refine ⟨rfl, rfl, rfl, rfl, rfl, rfl, rfl, rfl, rfl, id, ?_⟩
    have hcan : s.canRaise = true := by
      rw [Session.canRaise, hc]
      simpa using hopen
    rw [hcan, Bool.true_and, Bool.and_eq_false_iff, Bool.not_eq_false'] at hclean
    cases hclean with
    | inr htells => exact Or.inl htells
    | inl hnone =>
      rw [Session.hasDue, hc] at hnone
      right
      exact filter_waiting hc hnone _ rfl rfl

theorem clientClose (h : Delivers w) {raises : Bool}
    (hclean : w.isClean (.clientClose raises) = true) (hs : w.clientClose raises = some v) :
    Delivers v := by
  have hquiet : ∀ k, w.operation.closes = some k → ∀ s, w.sessions[k]? = some s →
      Quiet s (s.closeClient raises).1 := by
    intro k hcloses s hk
    apply quiet_closeClient
    unfold World.isClean at hclean
    rw [hcloses, Option.bind_some, hk] at hclean
    dsimp only at hclean
    rw [Bool.not_eq_true'] at hclean
    exact hclean
  unfold World.clientClose at hs
  cases hop : w.operation with
  | opening k stage =>
    rw [hop] at hs
    cases stage with
    | failing =>
      rw [← Option.some.inj hs]
      have hsilent : w.operation.isSilent = true := by rw [hop]; rfl
      apply h.quiet hsilent
      · dsimp only [World.withOperation]
        split
        · rfl
        · rfl
      · exact update_quiet (hquiet k (by rw [hop]; rfl))
    | _ => cases hs
  | stopping k =>
    rw [hop] at hs
    rw [← Option.some.inj hs]
    have hsilent : w.operation.isSilent = true := by rw [hop]; rfl
    exact h.quiet hsilent rfl (update_quiet (hquiet k (by rw [hop]; rfl)))
  | finishing k =>
    rw [hop] at hs
    have hsilent : w.operation.isSilent = true := by rw [hop]; rfl
    have hclosed := update_quiet (hquiet k (by rw [hop]; rfl))
    dsimp only at hs
    split at hs
    · rw [← Option.some.inj hs]
      apply h.quiet hsilent rfl
      intro j t ht
      dsimp only [World.withOperation] at ht
      rw [getElem?_update] at ht
      split at ht
      · obtain ⟨middle, hmiddle, heq⟩ := Option.map_eq_some_iff.mp ht
        obtain ⟨s, hsession, hq⟩ := hclosed j middle hmiddle
        refine ⟨s, hsession, ?_⟩
        rw [← heq]
        exact ⟨hq.output, hq.log, hq.appended, hq.reader, hq.message, hq.stops, hq.received,
          hq.inputs, hq.inputSequence, hq.ended, hq.waiting⟩
      · exact hclosed j t ht
    · rw [← Option.some.inj hs]
      exact h.quiet hsilent rfl hclosed
  | _ =>
    rw [hop] at hs
    cases hs

theorem release (h : Delivers w) (hs : w.release = some v) : Delivers v := by
  unfold World.release at hs
  cases hop : w.operation with
  | opening k stage =>
    rw [hop] at hs
    cases stage with
    | releasing =>
      rw [← Option.some.inj hs]
      apply h.quiet (by rw [hop]; rfl) rfl
      apply update_quiet
      intro s _
      exact ⟨rfl, rfl, rfl, rfl, rfl, rfl, rfl, rfl, rfl, id, Or.inr rfl⟩
    | _ => cases hs
  | releasing k =>
    rw [hop] at hs
    rw [← Option.some.inj hs]
    apply h.quiet (by rw [hop]; rfl) rfl
    apply update_quiet
    intro s _
    exact ⟨rfl, rfl, rfl, rfl, rfl, rfl, rfl, rfl, rfl, fun _ => rfl, Or.inr rfl⟩
  | _ =>
    rw [hop] at hs
    cases hs

theorem finish (h : Delivers w) (hs : w.finish k = some v) : Delivers v := by
  unfold World.finish at hs
  split at hs
  · cases hs
  split at hs
  · cases hs
  rename_i hguard
  simp only [Bool.or_eq_true, not_or, ne_eq, decide_not, Bool.not_eq_true',
    decide_eq_false_iff_not, not_not] at hguard
  rw [← Option.some.inj hs]
  exact h.quiet (by rw [hguard.1]; rfl) rfl fun j t ht => ⟨t, ht, Quiet.refl t⟩

/-! ## Output and stops -/

theorem inputs_same {operation : Operation} {s t : Session}
    (h : Inputs operation k s) (hinputs : t.inputs = s.inputs)
    (hsequence : t.inputSequence = s.inputSequence) (hover : t.isOver = s.isOver) :
    Inputs operation k t where
  numbered := by
    unfold Session.isNumbered
    rw [hinputs]
    exact h.numbered
  rests := by
    rw [hinputs, hsequence, hover]
    exact h.rests
  writing := by
    rw [hover]
    exact h.writing
  sending := by
    rw [hinputs, hsequence]
    exact h.sending

theorem stopAsync_input (s : Session) (starts : Bool) (message : Message) (dropped : Bool) :
    (s.stopAsync starts message dropped).inputs = s.inputs ∧
      (s.stopAsync starts message dropped).inputSequence = s.inputSequence ∧
      (s.stopAsync starts message dropped).isOver = s.isOver := by
  unfold Session.stopAsync
  split
  · exact ⟨rfl, rfl, rfl⟩
  · exact ⟨rfl, rfl, rfl⟩

theorem onOutput_input (maximumBytes : Nat) (starts : Bool) (s : Session) (n : Notification) :
    (s.onOutput maximumBytes starts n).inputs = s.inputs ∧
      (s.onOutput maximumBytes starts n).inputSequence = s.inputSequence ∧
      (s.onOutput maximumBytes starts n).isOver = s.isOver := by
  unfold Session.onOutput
  split
  · exact ⟨rfl, rfl, rfl⟩
  split
  · exact stopAsync_input s starts _ _
  · exact stopAsync_input s starts _ _
  · split
    · exact ⟨rfl, rfl, rfl⟩
    rename_i hover
    have hnot : s.isOver = false := by simpa using hover
    unfold Session.take
    dsimp only
    split
    · obtain ⟨hinputs, hsequence, hstop⟩ := stopAsync_input _ starts .outputLimit false
      exact ⟨hinputs, hsequence, hstop.trans hnot.symm⟩
    · exact ⟨rfl, rfl, hnot.symm⟩

theorem onOutput_kept (maximumBytes : Nat) (starts : Bool) {s : Session} (h : Kept s)
    (n : Notification) : Kept (s.onOutput maximumBytes starts n) := by
  unfold Session.onOutput
  split
  · exact h
  split
  · exact h.stopAsync starts _ _
  · exact h.stopAsync starts _ _
  · rename_i data hdelta
    split
    · exact h
    · exact h.take maximumBytes starts hdelta

section

variable (h : Delivers w)

include h

theorem callback {maximumBytes k : Nat} {starts : Bool}
    (hclean : w.isClean (.callback k starts) = true)
    (hs : w.onClient k (World.runCallback maximumBytes starts) = some v) : Delivers v := by
  apply h.onClient _ hs
  intro s c t hk hc ht hsound
  unfold World.runCallback at ht
  cases hn : c.current with
  | none =>
    rw [hn] at ht
    cases ht
  | some n =>
    rw [hn] at ht
    rw [← Option.some.inj ht]
    obtain ⟨hinputs, hsequence, hover⟩ := onOutput_input maximumBytes starts (s.taken c) n
    have hloses : s.losesDelta starts = false := by
      dsimp only [World.isClean] at hclean
      rw [hk] at hclean
      simpa using hclean
    rw [Session.losesDelta, hc, Option.bind_some, hn] at hloses
    constructor
    · have htaken : Kept (s.taken c) := hsound.kept.congr rfl rfl rfl rfl
      exact onOutput_kept maximumBytes starts htaken n
    · exact hsound.tells.onOutput maximumBytes starts hc hn hloses
    · exact inputs_same hsound.inputs hinputs hsequence hover

theorem discard (hclean : w.isClean (.discard k) = true)
    (hs : w.onClient k (fun s c => some { s with client := some { c with queue := [] } }) =
      some v) : Delivers v := by
  apply h.onClient _ hs
  intro s c t hk hc ht hsound
  rw [← Option.some.inj ht]
  have hloses : (s.hasDue && !s.mayTell) = false := by
    dsimp only [World.isClean] at hclean
    rw [hk, Option.map_some, Option.getD_some, Bool.not_eq_true'] at hclean
    exact hclean
  have hquiet : Quiet s { s with client := some { c with queue := [] } } := by
    refine ⟨rfl, rfl, rfl, rfl, rfl, rfl, rfl, rfl, rfl, id, ?_⟩
    rw [Bool.and_eq_false_iff, Bool.not_eq_false'] at hloses
    cases hloses with
    | inr htells => exact Or.inl htells
    | inl hnone =>
      rw [Session.hasDue, hc] at hnone
      right
      exact filter_waiting hc hnone _ rfl rfl
  exact hquiet.goesOn rfl hsound

theorem receive {n : Notification}
    (hs : w.onClient k (fun s c => World.receives s c n) = some v) : Delivers v := by
  apply h.onClient _ hs
  intro s c t hk hc ht hsound
  have htells := hsound.tells.receives hc ht
  unfold World.receives at ht
  split at ht
  · cases ht
  · rw [← Option.some.inj ht] at htells ⊢
    exact ⟨hsound.kept.congr rfl rfl rfl rfl, htells, inputs_same hsound.inputs rfl rfl rfl⟩

theorem dequeue (hs : w.onClient k World.dequeues = some v) : Delivers v := by
  apply h.onClient _ hs
  intro s c t hk hc ht hsound
  unfold World.dequeues at ht
  split at ht
  · rename_i n rest hcurrent hqueue
    rw [← Option.some.inj ht]
    have hquiet : Quiet s
        { s with client := some { c with current := some n, queue := rest } } := by
      refine ⟨rfl, rfl, rfl, rfl, rfl, rfl, rfl, rfl, rfl, id, Or.inr ?_⟩
      simp [Session.waiting, Client.waiting, hc, hcurrent, hqueue]
    exact hquiet.goesOn rfl hsound
  · cases ht

theorem commandEnds (hduty : Duty w) {result : Option (Option Int)} (hs : w.onSession k (fun s =>
      if s.waiter = .requesting then some (s.commandEnds result) else none) = some v) :
    Delivers v := by
  apply h.onSession _ hs
  intro s t hk ht hsound
  rcases Runs.enabled ht with ⟨hwaits, ht⟩
  rw [← Option.some.inj ht]
  have hopen : s.state ≠ .closed := by
    intro hclosed
    have hdone := (hduty.fits k s hk).ended.mp hclosed
    rw [hdone] at hwaits
    cases hwaits
  have htells := hsound.tells.commandEnds result hopen
  cases result with
  | none =>
    exact ⟨hsound.kept.congr rfl rfl rfl rfl, htells, inputs_same hsound.inputs rfl rfl rfl⟩
  | some code =>
    exact ⟨hsound.kept.congr rfl rfl rfl rfl, htells, inputs_same hsound.inputs rfl rfl rfl⟩

theorem stops (hsilent : w.operation.isSilent = true) (k : Nat)
    (message : Message) : Delivers (w.stop k message) := by
  apply Delivers.stop
  · intro j s _ hs
    exact (Quiet.refl s).sound (h j s hs) (Operation.ne_sending hsilent j) rfl
  · intro s hs
    have hsound := h k s hs
    exact ⟨hsound.kept, hsound.inputs.numbered, fun _ => hsound.tells,
      fun hover => hsound.tells.closes hover message⟩

theorem stopFreely {message : Message} (hs : w.stopFreely k message = some v) : Delivers v := by
  unfold World.stopFreely at hs
  split at hs
  · rename_i hidle
    rw [← Option.some.inj hs]
    exact h.stops (by rw [hidle]; rfl) k message
  · cases hs

theorem asyncStop {k index : Nat}
    (hclean : w.isClean (.asyncStop k index) = true) (hs : w.asyncStop k index = some v) :
    Delivers v := by
  unfold World.asyncStop at hs
  cases hk : w.sessions[k]? with
  | none =>
    rw [hk] at hs
    cases hs
  | some s =>
    rw [hk] at hs
    dsimp only at hs
    cases hthread : s.stops[index]? with
    | none =>
      rw [hthread] at hs
      cases hs
    | some thread =>
      rw [hthread] at hs
      dsimp only at hs
      unfold World.stopFreely at hs
      rcases Runs.enabled hs with ⟨hidle, hs⟩
      have hsilent : w.operation.isSilent = true := by
        have hsame : w.operation = .idle := hidle
        rw [hsame]
        rfl
      have hsound := h k s hk
      rw [← Option.some.inj hs]
      apply Delivers.stop
      · intro j other hne hother
        rw [getElem?_update, if_neg fun heq => hne heq.symm] at hother
        exact (Quiet.refl other).sound (h j other hother) (Operation.ne_sending hsilent j) rfl
      intro t ht
      rw [getElem?_update, if_pos rfl, hk] at ht
      cases ht
      refine ⟨hsound.kept.congr rfl rfl rfl rfl, hsound.inputs.numbered, ?_, ?_⟩
      · intro hover
        apply hsound.tells.erase hthread
        have hloses : s.losesStop index = false := by
          dsimp only [World.isClean] at hclean
          rw [hk] at hclean
          simpa using hclean
        have hisOver : s.isOver = true := hover
        rw [Session.losesStop, hthread] at hloses
        cases hdropped : thread.dropped with
        | false => exact Or.inl rfl
        | true =>
          right
          simpa [hdropped, hisOver] using hloses
      · intro hover
        exact hsound.tells.eraseStop hover hthread

theorem watch {reason : Option Message}
    (hs : w.onSession k (fun s => World.watches s reason) = some v) : Delivers v := by
  apply h.onSession _ hs
  intro s t hk ht hsound
  have hquiet : ∀ thread, Quiet s { s with watch := thread } := by
    intro thread
    exact ⟨rfl, rfl, rfl, rfl, rfl, rfl, rfl, rfl, rfl, id, Or.inr rfl⟩
  unfold World.watches at ht
  split at ht
  · cases ht
  split at ht
  · rw [← Option.some.inj ht]
    exact (hquiet .done).goesOn rfl hsound
  split at ht
  · rw [← Option.some.inj ht]
    exact hsound
  · rename_i message
    rw [← Option.some.inj ht]
    exact (hquiet (.stopping message)).goesOn rfl hsound

theorem watchStops (hs : w.watchStops k = some v) : Delivers v := by
  unfold World.watchStops at hs
  split at hs
  · cases hs
  split at hs
  · apply Delivers.stopFreely _ hs
    apply h.touches
    intro s _ hsound
    have hquiet : Quiet s { s with watch := .done } :=
      ⟨rfl, rfl, rfl, rfl, rfl, rfl, rfl, rfl, rfl, id, Or.inr rfl⟩
    exact hquiet.goesOn rfl hsound
  · cases hs

theorem shutdown (hs : w.shutdown = some v) : Delivers v := by
  unfold World.shutdown at hs
  have hclosed : Delivers { w with closed := true } := h
  split at hs
  · cases hs
  rename_i hidle
  rw [ne_eq, not_not] at hidle
  split at hs
  · rw [← Option.some.inj hs]
    exact hclosed
  rw [← Option.some.inj hs]
  apply hclosed.stops
  dsimp only
  rw [hidle]
  rfl

/-- `write` starts on a session that runs. -/
theorem write {k sequence : Nat} (hs : w.write k sequence = some v) :
    Delivers v := by
  unfold World.write at hs
  cases hk : w.sessions[k]? with
  | none =>
    rw [hk] at hs
    cases hs
  | some s =>
    rw [hk] at hs
    dsimp only at hs
    rcases Option.ite_none_left_eq_some.mp hs with ⟨hguard, hs⟩
    simp only [Bool.or_eq_true, not_or, ne_eq, decide_not, Bool.not_eq_true',
      decide_eq_false_iff_not, not_not] at hguard
    obtain ⟨⟨⟨hidle, _⟩, hrunning⟩, _⟩ := hguard
    rw [← Option.some.inj hs]
    intro j t ht
    have hsound := h j t ht
    rw [hidle] at hsound
    refine ⟨hsound.kept, hsound.tells, hsound.inputs.numbered, ?_, ?_, ?_⟩
    · intro _
      apply hsound.inputs.rests
      intro q heq
      cases heq
    · intro q heq
      cases heq
      have hsame : w.sessions[k]? = some t := ht
      rw [hk] at hsame
      rw [← Option.some.inj hsame]
      simp [Session.isOver, hrunning]
    · intro q heq
      cases heq

theorem writeChecked {editable : Bool} (hs : w.writeChecked editable = some v) : Delivers v := by
  unfold World.writeChecked at hs
  cases hop : w.operation with
  | writing k sequence =>
    rw [hop] at hs
    have hnone : ∀ j q, w.operation ≠ .sending j q := by
      intro j q
      rw [hop]
      intro heq
      cases heq
    have hidle : Delivers (w.withOperation .idle) := by
      intro j s hj
      exact (Quiet.refl s).sound (h j s hj) (hnone j) rfl
    dsimp only at hs
    split at hs
    · rw [← Option.some.inj hs]
      apply Delivers.stop
      · intro j s _ hj
        exact (Quiet.refl s).sound (h j s hj) (hnone j) rfl
      · intro s hk
        have hsound := h k s hk
        exact ⟨hsound.kept, hsound.inputs.numbered, fun _ => hsound.tells,
          fun hover => hsound.tells.closes hover _⟩
    · split at hs
      · cases hs
      rename_i s hk
      split at hs
      · rw [← Option.some.inj hs]
        exact hidle
      split at hs
      · rw [← Option.some.inj hs]
        exact hidle
      rename_i hnext
      rw [ne_eq, not_not] at hnext
      rw [← Option.some.inj hs]
      intro j t ht
      rw [World.withOperation, getElem?_update] at ht
      split at ht
      · rename_i heq
        rw [← heq, hk] at ht
        cases ht
        have hsound := h k s hk
        have hover := hsound.inputs.writing sequence hop
        have hcount : s.inputSequence = s.inputs.length := by
          cases hsound.inputs.rests (hnone k) with
          | inl hyes =>
            rw [hover] at hyes
            cases hyes
          | inr hcount => exact hcount
        rw [← heq]
        refine ⟨hsound.kept.congr rfl rfl rfl rfl,
          hsound.tells.congr rfl id rfl rfl rfl (Or.inr rfl),
          hsound.inputs.numbered, ?_, ?_, ?_⟩
        · intro hne
          exact absurd rfl (hne sequence)
        · intro q hwriting
          cases hwriting
        · intro q hsending
          cases hsending
          refine ⟨rfl, ?_⟩
          dsimp only
          rw [hnext, hcount]
      · rename_i hne
        have hsound := h j t ht
        refine ⟨hsound.kept, hsound.tells, hsound.inputs.numbered, ?_, ?_, ?_⟩
        · intro _
          exact hsound.inputs.rests (hnone j)
        · intro q hwriting
          cases hwriting
        · intro q hsending
          cases hsending
          exact absurd rfl hne
  | _ =>
    rw [hop] at hs
    cases hs

end

theorem numbered_append {s : Session} {q : Nat} (h : s.isNumbered) (hq : q = s.inputs.length + 1) :
    s.inputs ++ [q] = List.range' 1 (s.inputs ++ [q]).length := by
  unfold Session.isNumbered at h
  rw [List.length_append, List.length_singleton, List.range'_1_concat, ← h, hq, Nat.add_comm]

theorem writeReturns (h : Delivers w) {delivered raises : Bool}
    (hs : w.writeReturns delivered raises = some v) : Delivers v := by
  unfold World.writeReturns at hs
  cases hop : w.operation with
  | sending k sequence =>
    rw [hop] at hs
    have hothers : ∀ (j : Nat) s, j ≠ k → w.sessions[j]? = some s → Sound .idle j s := by
      intro j s hne hj
      apply (Quiet.refl s).sound (h j s hj) _ rfl
      intro q
      rw [hop]
      intro heq
      cases heq
      exact hne rfl
    have hsent : ∀ s, w.sessions[k]? = some s →
        s.inputs ++ [sequence] = List.range' 1 (s.inputs ++ [sequence]).length ∧
          s.inputSequence = (s.inputs ++ [sequence]).length := by
      intro s hk
      obtain ⟨hsequence, hcount⟩ := (h k s hk).inputs.sending sequence hop
      refine ⟨numbered_append (h k s hk).inputs.numbered (hsequence.trans hcount), ?_⟩
      rw [List.length_append, List.length_singleton, hcount]
    have hafter : ∀ s, Tells s → Tells { s with inputs := s.inputs ++ [sequence] } :=
      fun s htells => htells.congr rfl id rfl rfl rfl (Or.inr rfl)
    cases delivered with
    | true =>
      cases raises with
      | true =>
        rw [← Option.some.inj hs]
        apply Delivers.stop
        · intro j s hne hj
          rw [if_pos rfl, getElem?_update, if_neg fun heq => hne heq.symm] at hj
          exact hothers j s hne hj
        intro s hk
        rw [if_pos rfl, getElem?_update, if_pos rfl] at hk
        obtain ⟨old, hold, heq⟩ := Option.map_eq_some_iff.mp hk
        have hsound := h k old hold
        rw [← heq]
        exact ⟨hsound.kept.congr rfl rfl rfl rfl, (hsent old hold).1,
          fun _ => hafter old hsound.tells,
          fun hover => (hafter old hsound.tells).closes hover _⟩
      | false =>
        rw [← Option.some.inj hs]
        intro j t ht
        dsimp only [World.withOperation] at ht
        rw [if_pos rfl, getElem?_update] at ht
        split at ht
        · rename_i heq
          obtain ⟨old, hold, hsame⟩ := Option.map_eq_some_iff.mp ht
          rw [← heq] at hold
          have hsound := h k old hold
          rw [← hsame]
          exact ⟨hsound.kept.congr rfl rfl rfl rfl, hafter old hsound.tells,
            inputs_silent rfl (hsent old hold).1 (Or.inr (hsent old hold).2)⟩
        · rename_i hne
          exact hothers j t (fun heq => hne heq.symm) ht
    | false =>
      cases raises with
      | true =>
        rw [← Option.some.inj hs]
        apply Delivers.stop
        · exact hothers
        intro s hk
        have hsound := h k s hk
        exact ⟨hsound.kept, hsound.inputs.numbered, fun _ => hsound.tells,
          fun hover => hsound.tells.closes hover _⟩
      | false => cases hs
  | _ =>
    rw [hop] at hs
    cases hs

theorem resize (h : Delivers w) (hs : w.resize k = some v) : Delivers v := by
  unfold World.resize at hs
  split at hs
  · cases hs
  split at hs
  · cases hs
  rename_i hguard
  simp only [Bool.or_eq_true, not_or, ne_eq, decide_not, Bool.not_eq_true',
    decide_eq_false_iff_not, not_not] at hguard
  rw [← Option.some.inj hs]
  exact h.quiet (by rw [hguard.1.1]; rfl) rfl fun j t ht => ⟨t, ht, Quiet.refl t⟩

theorem next {maximumBytes : Nat} {label : Label} (h : Delivers w) (hduty : Duty w)
    (hclean : w.isClean label = true) (hs : w.next maximumBytes label = some v) :
    Delivers v := by
  cases label with
  | «open» => exact h.openSession hs
  | openStep raises => exact h.openStep hduty hs
  | clientClose raises => exact h.clientClose hclean hs
  | release => exact h.release hs
  | commandEnds k result => exact h.commandEnds hduty hs
  | finish k => exact h.finish hs
  | receive k n => exact h.receive hs
  | dequeue k => exact h.dequeue hs
  | callback k starts => exact h.callback hclean hs
  | discard k => exact h.discard hclean hs
  | asyncStop k index => exact h.asyncStop hclean hs
  | watch k reason => exact h.watch hs
  | watchStops k => exact h.watchStops hs
  | closeSession k =>
    dsimp only [World.next] at hs
    split at hs
    · exact h.stopFreely hs
    · cases hs
  | shutdown => exact h.shutdown hs
  | write k sequence => exact h.write hs
  | writeChecked editable => exact h.writeChecked hs
  | writeReturns delivered raises => exact h.writeReturns hs
  | resize k => exact h.resize hs
  | resizeReturns =>
    dsimp only [World.next] at hs
    cases hop : w.operation with
    | resizing k =>
      rw [hop] at hs
      rw [← Option.some.inj hs]
      exact h.quiet (by rw [hop]; rfl) rfl fun j t ht => ⟨t, ht, Quiet.refl t⟩
    | _ =>
      rw [hop] at hs
      cases hs
  | read k =>
    dsimp only [World.next] at hs
    split at hs
    · apply h.onSession _ hs
      intro s t _ ht hsound
      rw [← Option.some.inj ht]
      exact ⟨hsound.kept.readsOn, hsound.tells.congr rfl id rfl rfl rfl (Or.inr rfl),
        inputs_same hsound.inputs rfl rfl rfl⟩
    · cases hs

end Delivers

end CodexBridge.Terminal
