import CodexBridge.AppServer.Calls

/-! # The mask over the MCP servers

A client that is ready in the masked state runs a generation that was started with the
mask, and an unmasked generation becomes ready only to be activated, as long as nobody
goes back to the masked state between the supervisor's last look at it and the
activation.
-/

namespace CodexBridge.AppServer

open Effect

def Activation.restored : Activation → Option Nat
  | .restoring generation => some generation
  | _ => none

/-- The configuration that the supervisor is about to judge. -/
def Phase.effective : Phase → Option Json
  | .readConfig effective => some effective
  | _ => none

namespace Client

/-! ## What must hold -/

def MaskedMeansDisabled (s : Client) : Prop :=
  s.link.ready = true → s.mcpStartupState = .masked →
    s.link.generation ∈ s.maskedStarts ∨ s.link.generation ∈ s.verified

/-- The supervisor has set the ready event for the expected generation, and activates it
with its next step. -/
def IsActivating (s : Client) (g : Nat) : Prop :=
  s.phase = .exposed ∧ s.current = g ∧ s.mcpStartupState = .activating ∧
    s.mcpActivationGeneration = some g

/-- An unmasked generation became ready while the state was active, or its activation
succeeded. -/
def UnmaskedMeansActivated (s : Client) : Prop :=
  ∀ e ∈ s.exposures, e.generation ∉ s.maskedStarts →
    e.startupState = .active ∨ e.generation ∈ s.activated ∨ s.IsActivating e.generation

/-- An unmasked generation is past the last look at the startup state, and not active yet. -/
def isLoose (s : Client) : Bool :=
  (s.phase = .checked ∨ s.phase = .exposed) ∧ s.mcpStartupState = .activating ∧
    s.current ∉ s.maskedStarts

/-- The step does not take the activation back behind the supervisor's last look. -/
def Steady (env : Settings) (s : Client) : Step → Prop
  | .activateRestore i => ∀ a g, s.activations.get? i = some a → a.restored = some g →
      s.mcpActivationGeneration = some (g + 1) → s.isLoose = false
  | .activateWithdraw _ => s.isLoose = false
  | .closeClear => s.phase = .confirmed → s.current ∈ s.maskedStarts
  | .closeMask => s.phase = .exposed → s.isLoose = false
  | .judge => ∀ effective, s.phase.effective = some effective → s.mcpStartupState = .masked →
      mcpConfigIsDisabled effective = true → env.unloadDelayAgrees effective = true →
        s.current ∈ s.maskedStarts
  | _ => True

instance (env : Settings) (s : Client) : (step : Step) → Decidable (s.Steady env step)
  | .activateRestore i => decidable_of_iff
      (∀ a ∈ s.activations.get? i, ∀ g ∈ a.restored,
        s.mcpActivationGeneration = some (g + 1) → s.isLoose = false)
      ⟨fun h a g ha hg => h a ha g hg, fun h a ha g hg => h a g ha hg⟩
  | .activateWithdraw _ => inferInstanceAs (Decidable (s.isLoose = false))
  | .closeClear => inferInstanceAs (Decidable (s.phase = .confirmed → s.current ∈ s.maskedStarts))
  | .closeMask => inferInstanceAs (Decidable (s.phase = .exposed → s.isLoose = false))
  | .judge => inferInstanceAs (Decidable (∀ effective ∈ s.phase.effective,
      s.mcpStartupState = .masked → mcpConfigIsDisabled effective = true →
        env.unloadDelayAgrees effective = true → s.current ∈ s.maskedStarts))
  | .link _ | .start | .leave | .prepare _ | .spawn _ | .callInitialize | .initialized | .dispatch
  | .startNotice | .flushNotice _ | .look | .configRead | .confirm | .expose
  | .activateGeneration | .joined | .fail | .restoreOnFailure | .clearReady | .failPending
  | .discardRequests | .stopProcess | .dropProcess | .activate _ | .activateAbort _
  | .activateEnd _ | .activateExpire _ | .activateLook _ | .activateAbandon _ | .closeBegin
  | .failAllPending => isTrue trivial

def isBetween : Phase → Bool
  | .unstarted | .resting | .launching _ => true
  | _ => false

def isStarting : Phase → Bool
  | .spawned | .initializing _ | .initialized | .dispatching | .notifying | .notified
  | .readingConfig _ | .readConfig _ | .checked | .confirmed => true
  | _ => false

def isExposed : Phase → Bool
  | .exposed | .serving | .clearing => true
  | _ => false

def Expects (s : Client) : Prop :=
  (s.mcpActivationGeneration = some (s.link.generation + 1) ∧ isStarting s.phase = false ∧
    (s.phase = .failing → s.current = 0)) ∨
  (s.mcpActivationGeneration = some s.link.generation ∧ s.current = s.link.generation ∧
    (isStarting s.phase = true ∨ s.phase = .exposed ∨ s.phase = .failing))

def Covered (s : Client) : Prop :=
  s.mcpStartupState = .active ∨ s.current ∈ s.maskedStarts ∨
    (s.mcpStartupState = .activating ∧ s.mcpActivationGeneration = some s.current)

structure Shielded (s : Client) : Prop where
  between : isBetween s.phase = true → s.current = 0
  inside : isStarting s.phase = true ∨ s.phase = .exposed → s.current = s.link.generation
  ready : s.link.ready = true → isExposed s.phase = true ∧ s.current = s.link.generation
  closed : s.closed = false ↔ s.closing = .uncalled
  verified : ∀ g ∈ s.verified, g ∈ s.maskedStarts
  expected : s.mcpStartupState = .activating → s.Expects
  checked : s.phase = .checked → s.closed = false → s.Covered
  confirmed : s.phase = .confirmed → s.Covered
  serving : s.link.ready = true → s.mcpStartupState = .active ∨ s.current ∈ s.maskedStarts ∨
    s.IsActivating s.current
  closing : s.link.ready = true ∨ s.phase = .confirmed →
    s.closing = .cleared ∨ s.closing = .masked → s.current ∈ s.maskedStarts
  exposures : s.UnmaskedMeansActivated

theorem shielded_initial : Client.initial.Shielded := by
  constructor
  all_goals simp [Client.initial, Link.initial, UnmaskedMeansActivated, isExposed, isStarting]

/-! ## Steps -/

section

variable {s t : Client} {env : Settings}

/-- Everything but the link, the phase and the activations stays. -/
structure Frame (s t : Client) : Prop where
  generation : t.link.generation = s.link.generation
  ready : t.link.ready = true → s.link.ready = true
  current : t.current = s.current
  startupState : t.mcpStartupState = s.mcpStartupState
  expected : t.mcpActivationGeneration = s.mcpActivationGeneration
  closed : t.closed = s.closed
  closing : t.closing = s.closing
  maskedStarts : t.maskedStarts = s.maskedStarts
  verified : t.verified = s.verified
  exposures : t.exposures = s.exposures
  activated : t.activated = s.activated

theorem frame_link {link : Link} (hgeneration : link.generation = s.link.generation)
    (hready : link.ready = true → s.link.ready = true) (phase : Phase) :
    Frame s { s with link := link, phase := phase } :=
  ⟨hgeneration, hready, rfl, rfl, rfl, rfl, rfl, rfl, rfl, rfl, rfl⟩

theorem frame_phase (s : Client) (phase : Phase) : Frame s { s with phase := phase } :=
  frame_link rfl id phase

theorem frame_core {link : Link} (hcore : Link.Core s.link link) (phase : Phase) :
    Frame s { s with link := link, phase := phase } :=
  frame_link hcore.generation hcore.ready phase

/-- A write, whatever becomes of it, leaves the generation and never makes it ready. -/
theorem flush_keeps {l u : Link} {w : Writing} {g : Nat} {result : Pipe}
    (h : l.flush w g result = some u) :
    u.generation = l.generation ∧ (u.ready = true → l.ready = true) := by
  have hbroke : ∀ error, (l.writeBroke w g error).generation = l.generation ∧
      ((l.writeBroke w g error).ready = true → l.ready = true) := by
    intro error
    have hmarked := Link.core_markGenerationFailed { l with writer := none } g error
    have hfailed := Link.core_writeFails
      (Link.markGenerationFailed { l with writer := none } g error) w.payload error
    exact ⟨(hmarked.trans hfailed).generation, (hmarked.trans hfailed).ready⟩
  have hwrote : (l.wrote w).generation = l.generation ∧ (l.wrote w).ready = l.ready := by
    unfold Link.wrote
    simp only
    split
    · exact ⟨rfl, rfl⟩
    · exact ⟨rfl, rfl⟩
    · exact ⟨rfl, rfl⟩
  cases result with
  | written =>
    rcases Option.ite_none_left_eq_some.mp h with ⟨_, h⟩
    cases h
    exact ⟨hwrote.1, fun hr => hwrote.2 ▸ hr⟩
  | broken =>
    cases h
    exact hbroke _
  | short =>
    rcases Option.ite_none_left_eq_some.mp h with ⟨_, h⟩
    cases h
    exact hbroke _

theorem frame_call (s : Client) (env : Settings) (method : String) (next : Nat → Phase) :
    Frame s (s.call env method next) := by
  unfold Client.call
  split
  · rename_i n link hr
    have hcore : Link.Core s.link link := by
      obtain ⟨-, -, rfl⟩ := Link.register_spec hr
      exact Link.core_of rfl rfl rfl rfl rfl
    exact frame_core hcore _
  · exact frame_phase s .failing

theorem phase_call (s : Client) (env : Settings) (method : String) (next : Nat → Phase) :
    (∃ n, (s.call env method next).phase = next n) ∨ (s.call env method next).phase = .failing := by
  unfold Client.call
  split
  · rename_i n link hr
    exact .inl ⟨n, rfl⟩
  · exact .inr rfl

theorem Shielded.beside (h : s.Shielded) (hb : Frame s t) (hphase : t.phase = s.phase) :
    t.Shielded where
  between := by
    rw [hphase, hb.current]
    exact h.between
  inside := by
    rw [hphase, hb.current, hb.generation]
    exact h.inside
  ready hr := by
    rw [hphase, hb.current, hb.generation]
    exact h.ready (hb.ready hr)
  closed := by
    rw [hb.closed, hb.closing]
    exact h.closed
  verified := by
    rw [hb.verified, hb.maskedStarts]
    exact h.verified
  expected := by
    unfold Expects
    rw [hphase, hb.current, hb.generation, hb.startupState, hb.expected]
    exact h.expected
  checked := by
    unfold Covered
    rw [hphase, hb.current, hb.startupState, hb.expected, hb.maskedStarts, hb.closed]
    exact h.checked
  confirmed := by
    unfold Covered
    rw [hphase, hb.current, hb.startupState, hb.expected, hb.maskedStarts]
    exact h.confirmed
  serving hr := by
    unfold IsActivating
    rw [hphase, hb.current, hb.startupState, hb.expected, hb.maskedStarts]
    exact h.serving (hb.ready hr)
  closing hr := by
    rw [hb.closing, hb.current, hb.maskedStarts]
    rw [hphase] at hr
    exact h.closing (hr.imp_left hb.ready)
  exposures := by
    unfold UnmaskedMeansActivated IsActivating
    rw [hphase, hb.current, hb.startupState, hb.expected, hb.maskedStarts, hb.exposures,
      hb.activated]
    exact h.exposures

variable {phase : Phase}

theorem not_exposed_of_starting (h : isStarting phase = true) : isExposed phase = false := by
  cases phase with
  | exposed | serving | clearing => cases h
  | _ => rfl

theorem ne_of_starting (h : isStarting phase = true) : phase ≠ .exposed := by
  rintro rfl
  cases h

section

variable (h : s.Shielded) (hs : isStarting s.phase = true)

include h hs

theorem Shielded.unready :
    s.link.ready ≠ true := by
  intro hr
  have he := (h.ready hr).1
  rw [not_exposed_of_starting hs] at he
  cases he

theorem Shielded.expects_current (ha : s.mcpStartupState = .activating) :
    s.mcpActivationGeneration = some s.link.generation := by
  rcases h.expected ha with ⟨-, hn, -⟩ | ⟨he, -⟩
  · rw [hs] at hn
    cases hn
  · exact he

theorem Shielded.covered (hm : s.mcpStartupState ≠ .masked) : s.Covered := by
  cases hstate : s.mcpStartupState with
  | masked => exact absurd hstate hm
  | active => exact .inl hstate
  | activating =>
    have hcurrent := h.inside (.inl hs)
    have he := h.expects_current hs hstate
    exact .inr (.inr ⟨hstate, by rw [he, hcurrent]⟩)

end

theorem UnmaskedMeansActivated.keep (h : s.UnmaskedMeansActivated) (hphase : s.phase ≠ .exposed)
    (hexposures : t.exposures = s.exposures) (hmasked : ∀ g ∈ s.maskedStarts, g ∈ t.maskedStarts)
    (hactivated : t.activated = s.activated) : t.UnmaskedMeansActivated := by
  intro e he hg
  rw [hexposures] at he
  rcases h e he (fun hm => hg (hmasked _ hm)) with ha | ha | ⟨hp, -⟩
  · exact .inl ha
  · exact .inr (.inl (hactivated ▸ ha))
  · exact absurd hp hphase

theorem Shielded.proceed (h : s.Shielded) (hb : Frame s t) (hs : isStarting s.phase = true)
    (ht : (isStarting t.phase = true ∧ t.phase ≠ .checked ∧ t.phase ≠ .confirmed) ∨
      t.phase = .failing) : t.Shielded := by
  have hunready : t.link.ready ≠ true := fun hr => h.unready hs (hb.ready hr)
  have hcurrent : t.current = t.link.generation := by
    rw [hb.current, hb.generation]
    exact h.inside (.inl hs)
  have hstop : isBetween t.phase = false ∧ t.phase ≠ .exposed ∧ t.phase ≠ .checked ∧
      t.phase ≠ .confirmed := by
    rcases ht with ⟨hp, hc, hf⟩ | hp
    · refine ⟨?_, ne_of_starting hp, hc, hf⟩
      cases hphase : t.phase with
      | unstarted | resting | launching => simp [hphase, isStarting] at hp
      | _ => rfl
    · simp [hp, isBetween]
  exact {
    between := fun hp => by simp [hstop.1] at hp
    inside := fun _ => hcurrent
    ready := fun hr => absurd hr hunready
    closed := by
      rw [hb.closed, hb.closing]
      exact h.closed
    verified := by
      rw [hb.verified, hb.maskedStarts]
      exact h.verified
    expected := by
      intro ha
      rw [hb.startupState] at ha
      have he := h.expects_current hs ha
      refine .inr ⟨by rw [hb.expected, hb.generation, he], hcurrent, ?_⟩
      exact ht.elim (fun hp => .inl hp.1) fun hp => .inr (.inr hp)
    checked := fun hp => absurd hp hstop.2.2.1
    confirmed := fun hp => absurd hp hstop.2.2.2
    serving := fun hr => absurd hr hunready
    closing := fun hr => hr.elim (fun hr => absurd hr hunready) fun hp => absurd hp hstop.2.2.2
    exposures := h.exposures.keep (ne_of_starting hs) hb.exposures
      (fun g hg => by rw [hb.maskedStarts]; exact hg) hb.activated }

def isEnding : Phase → Bool
  | .clearing | .failingPending | .discarding | .stopping | .stopped => true
  | _ => false

theorem ending_spec (h : isEnding phase = true) :
    isBetween phase = false ∧ isStarting phase = false ∧ phase ≠ .exposed ∧ phase ≠ .failing := by
  cases phase with
  | clearing | failingPending | discarding | stopping | stopped =>
    exact ⟨rfl, rfl, by simp, by simp⟩
  | _ => cases h

/-- The supervisor tears its generation down. -/
theorem Shielded.retreat (h : s.Shielded) (hb : Frame s t)
    (hs : s.phase = .serving ∨ isEnding s.phase = true) (ht : isEnding t.phase = true)
    (hr : t.link.ready = true → t.phase = .clearing) : t.Shielded := by
  obtain ⟨hbetween, hstarting, hexposed, hfailing⟩ := ending_spec ht
  have hs' : isStarting s.phase = false ∧ s.phase ≠ .exposed ∧ s.phase ≠ .failing := by
    rcases hs with hp | hp
    · simp [hp, isStarting]
    · exact (ending_spec hp).2
  have hlate : t.phase ≠ .checked ∧ t.phase ≠ .confirmed := by
    constructor
    · intro hp
      simp [hp, isStarting] at hstarting
    · intro hp
      simp [hp, isStarting] at hstarting
  exact {
    between := fun hp => by simp [hbetween] at hp
    inside := fun hp => hp.elim (fun hp => by simp [hstarting] at hp) fun hp => absurd hp hexposed
    ready := by
      intro hready
      rw [hb.current, hb.generation, hr hready]
      exact ⟨rfl, (h.ready (hb.ready hready)).2⟩
    closed := by
      rw [hb.closed, hb.closing]
      exact h.closed
    verified := by
      rw [hb.verified, hb.maskedStarts]
      exact h.verified
    expected := by
      intro ha
      rw [hb.startupState] at ha
      rcases h.expected ha with ⟨he, -⟩ | ⟨-, -, hp⟩
      · refine .inl ⟨by rw [hb.expected, hb.generation, he], hstarting, ?_⟩
        exact fun hp => absurd hp hfailing
      rcases hp with hp | hp | hp
      · simp [hs'.1] at hp
      · exact absurd hp hs'.2.1
      · exact absurd hp hs'.2.2
    checked := fun hp => absurd hp hlate.1
    confirmed := fun hp => absurd hp hlate.2
    serving := by
      intro hready
      rw [hb.startupState, hb.current, hb.maskedStarts]
      rcases h.serving (hb.ready hready) with ha | hm | ⟨hp, -⟩
      · exact .inl ha
      · exact .inr (.inl hm)
      · exact absurd hp hs'.2.1
    closing := by
      rw [hb.closing, hb.current, hb.maskedStarts]
      intro hready
      rcases hready with hready | hp
      · exact h.closing (.inl (hb.ready hready))
      · exact absurd hp hlate.2
    exposures := h.exposures.keep hs'.2.1 hb.exposures
      (fun g hg => by rw [hb.maskedStarts]; exact hg) hb.activated }

theorem between_spec (h : isBetween phase = true) :
    isExposed phase = false ∧ isStarting phase = false ∧ phase ≠ .exposed ∧ phase ≠ .failing := by
  cases phase with
  | unstarted | resting | launching =>
    exact ⟨rfl, rfl, by simp, by simp⟩
  | _ => cases h

section

variable (h : s.Shielded)

include h

section

variable (hs : isBetween s.phase = true)

include hs

theorem Shielded.expects_next (ha : s.mcpStartupState = .activating) :
    s.mcpActivationGeneration = some (s.link.generation + 1) := by
  obtain ⟨-, hstarting, hexposed, hfailing⟩ := between_spec hs
  rcases h.expected ha with ⟨he, -⟩ | ⟨-, -, hp⟩
  · exact he
  rcases hp with hp | hp | hp
  · simp [hstarting] at hp
  · exact absurd hp hexposed
  · exact absurd hp hfailing

theorem Shielded.unready_between :
    s.link.ready ≠ true := by
  intro hr
  have he := (h.ready hr).1
  rw [(between_spec hs).1] at he
  cases he

/-- The supervisor goes on between two generations, or stops. -/
theorem Shielded.rest (ht : isBetween phase = true ∨ phase = .failing ∨ phase = .ended) :
    Shielded { s with phase := phase } := by
  have hcurrent := h.between hs
  have hunready := h.unready_between hs
  have hphase : isStarting phase = false ∧ phase ≠ .exposed := by
    rcases ht with hp | hp | hp
    · exact ⟨(between_spec hp).2.1, (between_spec hp).2.2.1⟩
    · simp [hp, isStarting]
    · simp [hp, isStarting]
  have hlate : phase ≠ .checked ∧ phase ≠ .confirmed := by
    constructor
    · rintro rfl
      cases hphase.1
    · rintro rfl
      cases hphase.1
  exact {
    between := fun _ => hcurrent
    inside := fun hp => hp.elim (fun hp => by simp [hphase.1] at hp) fun hp => absurd hp hphase.2
    ready := fun hr => absurd hr hunready
    closed := h.closed
    verified := h.verified
    expected := fun ha => .inl ⟨h.expects_next hs ha, hphase.1, fun _ => hcurrent⟩
    checked := fun hp => absurd hp hlate.1
    confirmed := fun hp => absurd hp hlate.2
    serving := fun hr => absurd hr hunready
    closing := fun hr => hr.elim (fun hr => absurd hr hunready) fun hp => absurd hp hlate.2
    exposures := h.exposures.keep (between_spec hs).2.2.1 rfl (fun _ hg => hg) rfl }

end

theorem Shielded.spawn {masked : Bool} (hs : s.phase = .launching masked) :
    Shielded { s with
      link := s.link.spawn
      phase := .spawned
      current := s.link.generation + 1
      maskedStarts :=
        if masked then (s.link.generation + 1) :: s.maskedStarts else s.maskedStarts } := by
  have hbetween : isBetween s.phase = true := by rw [hs]; rfl
  have hunready : s.link.spawn.ready ≠ true := h.unready_between hbetween
  have hmasked : ∀ g ∈ s.maskedStarts, g ∈
      if masked then (s.link.generation + 1) :: s.maskedStarts else s.maskedStarts := by
    intro g hg
    split
    · exact List.mem_cons_of_mem _ hg
    · exact hg
  exact {
    between := fun hp => by cases hp
    inside := fun _ => rfl
    ready := fun hr => absurd hr hunready
    closed := h.closed
    verified := fun g hg => hmasked g (h.verified g hg)
    expected := fun ha => .inr ⟨h.expects_next hbetween ha, rfl, .inl rfl⟩
    checked := fun hp => by cases hp
    confirmed := fun hp => by cases hp
    serving := fun hr => absurd hr hunready
    closing := fun hr => hr.elim (fun hr => absurd hr hunready) fun hp => by cases hp
    exposures := h.exposures.keep (between_spec hbetween).2.2.1 rfl hmasked rfl }

theorem Shielded.check (hs : isStarting s.phase = true) {verified : List Nat}
    (hverified : ∀ g ∈ verified, g ∈ s.maskedStarts) (hcovered : s.Covered) :
    Shielded { s with phase := .checked, verified := verified } where
  between hp := by cases hp
  inside _ := h.inside (.inl hs)
  ready hr := absurd hr (h.unready hs)
  closed := h.closed
  verified := hverified
  expected ha := .inr ⟨h.expects_current hs ha, h.inside (.inl hs), .inl rfl⟩
  checked _ _ := hcovered
  confirmed hp := by cases hp
  serving hr := absurd hr (h.unready hs)
  closing hr := hr.elim (fun hr => absurd hr (h.unready hs)) fun hp => by cases hp
  exposures := h.exposures.keep (ne_of_starting hs) rfl (fun _ hg => hg) rfl

theorem Shielded.confirm (hs : s.phase = .checked) (hopen : s.closed = false) :
    Shielded { s with phase := .confirmed } := by
  have hstarting : isStarting s.phase = true := by rw [hs]; rfl
  have huncalled := h.closed.mp hopen
  exact {
    between := fun hp => by cases hp
    inside := fun _ => h.inside (.inl hstarting)
    ready := fun hr => absurd hr (h.unready hstarting)
    closed := h.closed
    verified := h.verified
    expected := fun ha => .inr ⟨h.expects_current hstarting ha, h.inside (.inl hstarting), .inl rfl⟩
    checked := fun hp => by cases hp
    confirmed := fun _ => h.checked hs hopen
    serving := fun hr => absurd hr (h.unready hstarting)
    closing := by
      intro _ hc
      simp only at hc
      rw [huncalled] at hc
      rcases hc with hc | hc
      · cases hc
      · cases hc
    exposures := h.exposures.keep (ne_of_starting hstarting) rfl (fun _ hg => hg) rfl }

/-- The ready event is set for a generation that may become ready. -/
theorem Shielded.expose (hs : s.phase = .confirmed) :
    Shielded { s with
      link := { s.link with ready := true }
      phase := .exposed
      everReady := true
      exposures := ⟨s.current, s.mcpStartupState⟩ :: s.exposures } := by
  have hstarting : isStarting s.phase = true := by rw [hs]; rfl
  have hcurrent := h.inside (.inl hstarting)
  have hcovered := h.confirmed hs
  exact {
    between := fun hp => by cases hp
    inside := fun _ => hcurrent
    ready := fun _ => ⟨rfl, hcurrent⟩
    closed := h.closed
    verified := h.verified
    expected := fun ha => .inr ⟨h.expects_current hstarting ha, hcurrent, .inr (.inl rfl)⟩
    checked := fun hp => by cases hp
    confirmed := fun hp => by cases hp
    serving := fun _ => hcovered.imp_right fun hc => hc.imp_right fun ha => ⟨rfl, rfl, ha⟩
    closing := fun _ => h.closing (.inr hs)
    exposures := by
      intro e he hg
      rcases List.mem_cons.mp he with rfl | he
      · rcases hcovered with ha | hm | ha
        · exact .inl ha
        · exact absurd hm hg
        · exact .inr (.inr ⟨rfl, rfl, ha⟩)
      · rcases h.exposures e he hg with ha | ha | ⟨hp, -⟩
        · exact .inl ha
        · exact .inr (.inl ha)
        · exact absurd hp (ne_of_starting hstarting) }

theorem Shielded.activateGeneration (hs : s.phase = .exposed) :
    Shielded { s.activateMcpGeneration s.current with phase := .serving } := by
  have hcurrent := h.inside (.inr hs)
  unfold Client.activateMcpGeneration
  split
  · exact {
      between := fun hp => by cases hp
      inside := fun hp => hp.elim (fun hp => by cases hp) fun hp => by cases hp
      ready := fun _ => ⟨rfl, hcurrent⟩
      closed := h.closed
      verified := h.verified
      expected := fun ha => by cases ha
      checked := fun hp => by cases hp
      confirmed := fun hp => by cases hp
      serving := fun _ => .inl rfl
      closing := fun hr => h.closing (.inl (hr.elim id fun hp => by cases hp))
      exposures := by
        intro e he hg
        rcases h.exposures e he hg with ha | ha | ⟨-, he, -⟩
        · exact .inl ha
        · exact .inr (.inl (List.mem_cons_of_mem _ ha))
        · exact .inr (.inl (he ▸ List.mem_cons_self)) }
  · rename_i hother
    exact {
      between := fun hp => by cases hp
      inside := fun hp => hp.elim (fun hp => by cases hp) fun hp => by cases hp
      ready := fun _ => ⟨rfl, hcurrent⟩
      closed := h.closed
      verified := h.verified
      expected := by
        intro ha
        rcases h.expected ha with ⟨he, -⟩ | ⟨he, hc, -⟩
        · exact .inl ⟨he, rfl, fun hp => by cases hp⟩
        · exact absurd ⟨ha, by rw [he, hc]⟩ hother
      checked := fun hp => by cases hp
      confirmed := fun hp => by cases hp
      serving := by
        intro hr
        rcases h.serving hr with ha | hm | ⟨-, -, ha⟩
        · exact .inl ha
        · exact .inr (.inl hm)
        · exact absurd ha hother
      closing := fun hr => h.closing (.inl (hr.elim id fun hp => by cases hp))
      exposures := by
        intro e he hg
        rcases h.exposures e he hg with ha | ha | ⟨-, he, ha⟩
        · exact .inl ha
        · exact .inr (.inl ha)
        · exact absurd (he ▸ ha) hother }

/-- A failed start ends the activation that waited for it. -/
theorem Shielded.restoreOnFailure (hs : s.phase = .failing) :
    Shielded { s.restoreMcpBootstrap (some s.current) with phase := .clearing } := by
  have hunready : s.link.ready ≠ true := by
    intro hr
    have he := (h.ready hr).1
    rw [hs] at he
    cases he
  have hexposed : s.phase ≠ .exposed := by simp [hs]
  unfold Client.restoreMcpBootstrap
  split
  · exact {
      between := fun hp => by cases hp
      inside := fun hp => hp.elim (fun hp => by cases hp) fun hp => by cases hp
      ready := fun hr => absurd hr hunready
      closed := h.closed
      verified := h.verified
      expected := fun ha => by cases ha
      checked := fun hp => by cases hp
      confirmed := fun hp => by cases hp
      serving := fun hr => absurd hr hunready
      closing := fun hr => hr.elim (fun hr => absurd hr hunready) fun hp => by cases hp
      exposures := h.exposures.keep hexposed rfl (fun _ hg => hg) rfl }
  · rename_i hother
    exact {
      between := fun hp => by cases hp
      inside := fun hp => hp.elim (fun hp => by cases hp) fun hp => by cases hp
      ready := fun hr => absurd hr hunready
      closed := h.closed
      verified := h.verified
      expected := by
        intro ha
        rcases h.expected ha with ⟨he, -⟩ | ⟨he, hc, -⟩
        · exact .inl ⟨he, rfl, fun hp => by cases hp⟩
        · exact absurd ⟨ha, .inr (by rw [he, hc])⟩ hother
      checked := fun hp => by cases hp
      confirmed := fun hp => by cases hp
      serving := fun hr => absurd hr hunready
      closing := fun hr => hr.elim (fun hr => absurd hr hunready) fun hp => by cases hp
      exposures := h.exposures.keep hexposed rfl (fun _ hg => hg) rfl }

theorem Shielded.dropProcess (hs : s.phase = .stopped) :
    s.dropProcess.Shielded := by
  have hunready : s.link.ready ≠ true := by
    intro hr
    have he := (h.ready hr).1
    rw [hs] at he
    cases he
  have hphase : s.dropProcess.phase = .ended ∨ s.dropProcess.phase = .resting := by
    unfold Client.dropProcess
    simp only
    split
    · exact .inl rfl
    · exact .inr rfl
  have hstarting : isStarting s.dropProcess.phase = false := by
    rcases hphase with hp | hp
    · rw [hp]
      rfl
    · rw [hp]
      rfl
  have hlate : s.dropProcess.phase ≠ .exposed ∧ s.dropProcess.phase ≠ .checked ∧
      s.dropProcess.phase ≠ .confirmed ∧ s.dropProcess.phase ≠ .failing := by
    rcases hphase with hp | hp
    · simp [hp]
    · simp [hp]
  exact {
    between := fun _ => rfl
    inside := fun hp => hp.elim (fun hp => by simp [hstarting] at hp) fun hp => absurd hp hlate.1
    ready := fun hr => absurd hr hunready
    closed := h.closed
    verified := h.verified
    expected := by
      intro ha
      rcases h.expected ha with ⟨he, -⟩ | ⟨-, -, hp⟩
      · exact .inl ⟨he, hstarting, fun hp => absurd hp hlate.2.2.2⟩
      · simp [hs, isStarting] at hp
    checked := fun hp => absurd hp hlate.2.1
    confirmed := fun hp => absurd hp hlate.2.2.1
    serving := fun hr => absurd hr hunready
    closing := fun hr => hr.elim (fun hr => absurd hr hunready) fun hp => absurd hp hlate.2.2.1
    exposures := h.exposures.keep (by simp [hs]) rfl (fun _ hg => hg) rfl }

theorem Shielded.begin (hm : s.mcpStartupState = .masked)
    (hr : s.link.ready = true) (activations : Dict Nat Activation) :
    Shielded { s with
      activations := activations
      mcpStartupState := .activating
      mcpActivationGeneration := some (s.link.generation + 1)
      mcpActivationComplete := false
      lifecycle := true } := by
  have hexposed := (h.ready hr).1
  have hphase : isStarting s.phase = false ∧ s.phase ≠ .failing ∧ s.phase ≠ .checked ∧
      s.phase ≠ .confirmed := by
    cases hp : s.phase with
    | exposed | serving | clearing => simp [isStarting]
    | _ =>
      rw [hp] at hexposed
      cases hexposed
  have hcurrent : s.current ∈ s.maskedStarts := by
    rcases h.serving hr with ha | hc | ⟨-, -, ha, -⟩
    · rw [hm] at ha
      cases ha
    · exact hc
    · rw [hm] at ha
      cases ha
  exact {
    between := h.between
    inside := h.inside
    ready := h.ready
    closed := h.closed
    verified := h.verified
    expected := fun _ => .inl ⟨rfl, hphase.1, fun hp => absurd hp hphase.2.1⟩
    checked := fun hp => absurd hp hphase.2.2.1
    confirmed := fun hp => absurd hp hphase.2.2.2
    serving := fun _ => .inr (.inl hcurrent)
    closing := h.closing
    exposures := by
      intro e he hg
      rcases h.exposures e he hg with ha | ha | ⟨-, -, ha, -⟩
      · exact .inl ha
      · exact .inr (.inl ha)
      · rw [hm] at ha
        cases ha }

/-- An activation is taken back, but not behind the supervisor's last look. -/
theorem Shielded.restore (hfree : s.phase ≠ .confirmed) (g : Option Nat)
    (htight : g = none ∨ s.mcpActivationGeneration = g → s.isLoose = false) :
    (s.restoreMcpBootstrap g).Shielded := by
  unfold Client.restoreMcpBootstrap
  split
  · rename_i hguard
    have hstrict : s.phase = .checked ∨ s.phase = .exposed → s.current ∈ s.maskedStarts := by
      intro hp
      by_contra hc
      have ht := htight hguard.2
      simp [isLoose, hp, hguard.1, hc] at ht
    exact {
      between := h.between
      inside := h.inside
      ready := h.ready
      closed := h.closed
      verified := h.verified
      expected := fun ha => by cases ha
      checked := fun hp _ => .inr (.inl (hstrict (.inl hp)))
      confirmed := fun hp => absurd hp hfree
      serving := by
        intro hr
        rcases h.serving hr with ha | hc | ⟨hp, -⟩
        · rw [hguard.1] at ha
          cases ha
        · exact .inr (.inl hc)
        · exact .inr (.inl (hstrict (.inr hp)))
      closing := h.closing
      exposures := by
        intro e he hg
        rcases h.exposures e he hg with ha | ha | ⟨hp, hc, -⟩
        · exact .inl ha
        · exact .inr (.inl ha)
        · exact absurd (hc ▸ hstrict (.inr hp)) hg }
  · exact h

theorem Shielded.closeClear (hc : s.closing = .begun)
    (hconfirmed : s.phase = .confirmed → s.current ∈ s.maskedStarts) :
    Shielded { s with link := { s.link with ready := false }, closing := .cleared } where
  between := h.between
  inside := h.inside
  ready hr := absurd hr Bool.false_ne_true
  closed := by
    have hclosed := h.closed
    rw [hc] at hclosed
    constructor
    · intro hopen
      have hu := hclosed.mp hopen
      cases hu
    · intro hu
      cases hu
  verified := h.verified
  expected := h.expected
  checked := h.checked
  confirmed := h.confirmed
  serving hr := absurd hr Bool.false_ne_true
  closing hr _ := hr.elim (fun hr => absurd hr Bool.false_ne_true) hconfirmed
  exposures := h.exposures

theorem Shielded.closeMask (hc : s.closing = .cleared)
    (hfree : s.phase ≠ .confirmed) (hexposed : s.phase = .exposed → s.isLoose = false)
    (closers : List Nat) :
    Shielded { s with
      link := { s.link with closers := closers }
      mcpStartupState := .masked
      mcpActivationGeneration := none
      mcpActivationComplete := true
      lifecycle := false
      closing := .masked } := by
  have hclosed : s.closed ≠ false := by
    intro hopen
    have hu := h.closed.mp hopen
    rw [hc] at hu
    cases hu
  exact {
    between := h.between
    inside := h.inside
    ready := h.ready
    closed := by
      constructor
      · exact fun hopen => absurd hopen hclosed
      · intro hu
        cases hu
    verified := h.verified
    expected := fun ha => by cases ha
    checked := fun _ hopen => absurd hopen hclosed
    confirmed := fun hp => absurd hp hfree
    serving := fun hr => .inr (.inl (h.closing (.inl hr) (.inl hc)))
    closing := fun hr _ => h.closing hr (.inl hc)
    exposures := by
      intro e he hg
      rcases h.exposures e he hg with ha | ha | ⟨hp, hcurrent, ha, -⟩
      · exact .inl ha
      · exact .inr (.inl ha)
      · have ht := hexposed hp
        rw [← hcurrent] at hg
        simp [isLoose, hp, ha, hg] at ht }

section

variable (hs : isStarting s.phase = true)

include hs

theorem Shielded.call (method : String) {next : Nat → Phase}
    (hnext : ∀ n, isStarting (next n) = true ∧ next n ≠ .checked ∧ next n ≠ .confirmed) :
    (s.call env method next).Shielded := by
  refine h.proceed (frame_call s env method next) hs ?_
  rcases phase_call s env method next with ⟨n, hp⟩ | hp
  · rw [hp]
    exact .inl (hnext n)
  · exact .inr hp

theorem Shielded.fail :
    Shielded { s with phase := .failing } :=
  h.proceed (frame_phase s .failing) hs (.inr rfl)

theorem Shielded.await {n : Nat} {next : Json → Client} (hnext : ∀ value, (next value).Shielded)
    (ha : s.await n next = some t) : t.Shielded := by
  unfold Client.await at ha
  split at ha
  · cases ha
    exact hnext _
  · cases ha
    exact h.fail hs
  · cases ha

end

end

theorem isStarting_of_isTrying (h : isTrying phase = true) : isStarting phase = true := by
  cases phase with
  | spawned | initialized | dispatching | notified | readConfig | checked => rfl
  | _ => cases h

theorem Shielded.look (h : s.Shielded) (hs : s.phase = .notified) :
    (s.lookAtStartupState env).Shielded := by
  have hstarting : isStarting s.phase = true := by rw [hs]; rfl
  unfold lookAtStartupState
  split
  · exact h.call hstarting _ fun n => ⟨rfl, by simp, by simp⟩
  · rename_i hguard
    exact h.check hstarting h.verified (h.covered hstarting (not_or.mp hguard).1)

theorem Shielded.judge (h : s.Shielded) {effective : Json} (hs : s.phase = .readConfig effective)
    (ho : Steady env s .judge) : (s.judgeConfig env effective).Shielded := by
  have hstarting : isStarting s.phase = true := by rw [hs]; rfl
  unfold judgeConfig
  split
  · exact h.fail hstarting
  rename_i hdisabled
  split
  · exact h.fail hstarting
  rename_i hdelay
  by_cases hm : s.mcpStartupState = .masked
  · have hpassed : mcpConfigIsDisabled effective = true := by simpa [hm] using hdisabled
    have hcurrent := ho effective (by rw [hs]; rfl) hm hpassed (by simpa using hdelay)
    refine h.check hstarting ?_ (.inr (.inl hcurrent))
    intro g hg
    rw [if_pos hm] at hg
    rcases List.mem_cons.mp hg with rfl | hg
    · exact hcurrent
    · exact h.verified g hg
  · rw [if_neg hm]
    exact h.check hstarting h.verified (h.covered hstarting hm)

theorem Shielded.supervise {step : Step} (h : s.Shielded) (ho : Steady env s step)
    (hn : s.superviseNext env step = some t) : t.Shielded := by
  cases step with
  | start =>
    rcases Runs.taken hn with ⟨hguard, rfl⟩
    exact h.rest (by simp [hguard.1, isBetween]) (.inl rfl)
  | leave =>
    rcases Runs.taken hn with ⟨hguard, rfl⟩
    exact h.rest (by simp [hguard.1, isBetween]) (.inr (.inr rfl))
  | prepare overrides =>
    rcases Runs.enabled hn with ⟨hguard, hn⟩
    have hbetween : isBetween s.phase = true := by simp [hguard.1, isBetween]
    split at hn
    · cases hn
      exact h.rest hbetween (.inr (.inl rfl))
    · cases hn
      exact h.rest hbetween (.inl rfl)
  | spawn started =>
    simp only [superviseNext] at hn
    split at hn
    · rename_i masked hphase
      split at hn
      · cases hn
        exact h.spawn hphase
      · cases hn
        exact h.rest (by simp [hphase, isBetween]) (.inr (.inl rfl))
    · cases hn
  | callInitialize =>
    obtain ⟨hphase, rfl⟩ := inPhase_spec hn
    exact h.call (by simp [hphase, isStarting]) _ fun n => ⟨rfl, by simp, by simp⟩
  | initialized =>
    simp only [superviseNext] at hn
    split at hn
    · rename_i n hphase
      have hstarting : isStarting s.phase = true := by simp [hphase, isStarting]
      refine h.await hstarting ?_ hn
      intro value
      refine h.proceed (frame_phase s _) hstarting ?_
      simp only
      split
      · exact .inl ⟨rfl, by simp, by simp⟩
      · exact .inr rfl
    · cases hn
  | dispatch =>
    obtain ⟨hphase, rfl⟩ := inPhase_spec hn
    have hstarting : isStarting s.phase = true := by simp [hphase, isStarting]
    split
    · refine h.proceed (frame_link ?_ ?_ .dispatching) hstarting (.inl ⟨rfl, by simp, by simp⟩)
      · rfl
      · exact id
    · exact h.fail hstarting
  | startNotice =>
    rcases Runs.enabled hn with ⟨hguard, hn⟩
    have hstarting : isStarting s.phase = true := by simp [hguard.1, isStarting]
    split at hn
    · cases hn
      refine h.proceed (frame_link ?_ ?_ .notifying) hstarting (.inl ⟨rfl, by simp, by simp⟩)
      · rfl
      · exact id
    · cases hn
      exact h.fail hstarting
  | flushNotice result =>
    simp only [superviseNext] at hn
    split at hn
    · rename_i p hphase _
      have hstarting : isStarting s.phase = true := by simp [hphase, isStarting]
      obtain ⟨link, hflush, rfl⟩ := Option.map_eq_some_iff.mp hn
      obtain ⟨hgeneration, hready⟩ := flush_keeps hflush
      refine h.proceed (frame_link hgeneration hready _) hstarting ?_
      simp only
      split
      · exact .inl ⟨rfl, by simp, by simp⟩
      · exact .inr rfl
    · cases hn
  | look =>
    obtain ⟨hphase, rfl⟩ := inPhase_spec hn
    exact h.look hphase
  | configRead =>
    simp only [superviseNext] at hn
    split at hn
    · rename_i n hphase
      have hstarting : isStarting s.phase = true := by simp [hphase, isStarting]
      refine h.await hstarting ?_ hn
      intro value
      split
      · exact h.proceed (frame_phase s _) hstarting (.inl ⟨rfl, by simp, by simp⟩)
      · exact h.fail hstarting
    · cases hn
  | judge =>
    simp only [superviseNext] at hn
    split at hn
    · rename_i effective hphase
      cases hn
      exact h.judge hphase ho
    · cases hn
  | confirm =>
    obtain ⟨hphase, rfl⟩ := inPhase_spec hn
    by_cases hcurrent : s.isCurrent = true
    · have hopen : s.closed = false := by
        unfold isCurrent at hcurrent
        simp only [Bool.and_eq_true, Bool.not_eq_true'] at hcurrent
        exact hcurrent.2
      rw [if_pos hcurrent]
      exact h.confirm hphase hopen
    · rw [if_neg hcurrent]
      exact h.fail (by simp [hphase, isStarting])
  | expose =>
    obtain ⟨hphase, rfl⟩ := inPhase_spec hn
    exact h.expose hphase
  | activateGeneration =>
    obtain ⟨hphase, rfl⟩ := inPhase_spec hn
    exact h.activateGeneration hphase
  | joined =>
    rcases Runs.taken hn with ⟨hguard, rfl⟩
    refine h.retreat (frame_core ?_ _) (.inl hguard.1) rfl fun _ => rfl
    split
    · exact Link.core_refl _
    · exact Link.core_of rfl rfl rfl rfl rfl
  | fail =>
    rcases Runs.taken hn with ⟨htrying, rfl⟩
    exact h.fail (isStarting_of_isTrying htrying)
  | restoreOnFailure =>
    obtain ⟨hphase, rfl⟩ := inPhase_spec hn
    exact h.restoreOnFailure hphase
  | clearReady =>
    obtain ⟨hphase, rfl⟩ := inPhase_spec hn
    have hcore : Link.Core s.link (s.link.clearReady s.current) :=
      ⟨rfl, rfl, fun _ hp => hp, fun hr => (Bool.false_ne_true hr).elim, fun _ => Iff.rfl⟩
    refine h.retreat (frame_core hcore _) (.inr (by rw [hphase]; rfl)) rfl ?_
    exact fun hr => (Bool.false_ne_true hr).elim
  | failPending =>
    obtain ⟨hphase, rfl⟩ := inPhase_spec hn
    have hcore := Link.core_failGenerationPending s.link s.current .unavailable
    have hending : isEnding s.phase = true := by rw [hphase]; rfl
    refine h.retreat (frame_core hcore _) (.inr hending) rfl ?_
    intro hr
    have he := (h.ready (hcore.ready hr)).1
    rw [hphase] at he
    cases he
  | discardRequests =>
    obtain ⟨hphase, rfl⟩ := inPhase_spec hn
    have hending : isEnding s.phase = true := by rw [hphase]; rfl
    have hcore : Link.Core s.link (s.link.discardGeneration s.current) :=
      Link.core_of rfl rfl rfl rfl rfl
    refine h.retreat (frame_core hcore _) (.inr hending) rfl ?_
    intro hr
    have he := (h.ready hr).1
    rw [hphase] at he
    cases he
  | stopProcess =>
    obtain ⟨hphase, rfl⟩ := inPhase_spec hn
    have hending : isEnding s.phase = true := by rw [hphase]; rfl
    have hcore : Link.Core s.link { s.link with stdinClosed := s.current :: s.link.stdinClosed } :=
      ⟨rfl, rfl, fun _ hp => List.mem_cons_of_mem _ hp, id, fun _ => Iff.rfl⟩
    refine h.retreat (frame_core hcore _) (.inr hending) rfl ?_
    intro hr
    have he := (h.ready hr).1
    rw [hphase] at he
    cases he
  | dropProcess =>
    obtain ⟨hphase, rfl⟩ := inPhase_spec hn
    exact h.dropProcess hphase
  | _ => cases hn

theorem Shielded.activate {step : Step} (h : s.Shielded) (ho : Steady env s step)
    (hfree : s.phase ≠ .confirmed) (hn : s.activateNext env step = some t) : t.Shielded := by
  have haside : ∀ activations lifecycle,
      Shielded { s with activations := activations, lifecycle := lifecycle } := fun _ _ =>
    h.beside ⟨rfl, id, rfl, rfl, rfl, rfl, rfl, rfl, rfl, rfl, rfl⟩ rfl
  cases step with
  | activate i =>
    rcases Runs.taken hn with ⟨_, rfl⟩
    unfold beginActivation
    split
    · exact haside _ _
    split
    · exact haside _ _
    rename_i hguard
    have hm : s.mcpStartupState = .masked := not_not.mp (not_or.mp hguard).1
    have hr : s.link.ready = true := by simpa using (not_or.mp (not_or.mp hguard).2).1
    exact h.begin hm hr _
  | activateAbort i =>
    obtain ⟨a, -, hact⟩ := inActivation_spec hn
    split at hact
    · rename_i g
      cases hact
      have hcore := Link.core_abortGeneration s.link g s.closed
      unfold abortForActivation
      simp only
      split
      · exact h.beside ⟨hcore.generation, hcore.ready, rfl, rfl, rfl, rfl, rfl, rfl, rfl, rfl, rfl⟩
          rfl
      · exact haside _ _
    · cases hact
  | activateRestore i =>
    obtain ⟨a, ha, hact⟩ := inActivation_spec hn
    split at hact
    · rename_i g
      cases hact
      have hrestored := h.restore hfree (some (g + 1)) ?_
      · exact hrestored.beside ⟨rfl, id, rfl, rfl, rfl, rfl, rfl, rfl, rfl, rfl, rfl⟩ rfl
      rintro (he | he)
      · cases he
      · exact ho _ g ha rfl he
    · cases hact
  | activateEnd i =>
    obtain ⟨a, -, hact⟩ := inActivation_spec hn
    split at hact
    · rcases Runs.taken hact with ⟨_, rfl⟩
      unfold endActivation
      split
      · exact haside _ _
      · exact haside _ _
    · cases hact
  | activateExpire i =>
    obtain ⟨a, -, hact⟩ := inActivation_spec hn
    split at hact
    · split at hact
      · cases hact
      · cases hact
        exact haside _ _
    · cases hact
  | activateLook i =>
    obtain ⟨a, -, hact⟩ := inActivation_spec hn
    split at hact
    · cases hact
      exact haside _ _
    · cases hact
  | activateWithdraw i =>
    obtain ⟨a, -, hact⟩ := inActivation_spec hn
    split at hact
    · cases hact
      have hrestored := h.restore hfree none fun _ => ho
      exact hrestored.beside ⟨rfl, id, rfl, rfl, rfl, rfl, rfl, rfl, rfl, rfl, rfl⟩ rfl
    · cases hact
  | activateAbandon i =>
    obtain ⟨a, -, hact⟩ := inActivation_spec hn
    split at hact
    · rename_i g
      cases hact
      have hcore := Link.core_abortGeneration s.link g s.closed
      exact h.beside ⟨hcore.generation, hcore.ready, rfl, rfl, rfl, rfl, rfl, rfl, rfl, rfl, rfl⟩
        rfl
    · cases hact
  | _ => cases hn

theorem Shielded.closeBegin (h : s.Shielded) :
    Shielded { s with closed := true, closing := .begun, lifecycle := true } where
  between := h.between
  inside := h.inside
  ready := h.ready
  closed := by simp
  verified := h.verified
  expected := h.expected
  checked _ hopen := by cases hopen
  confirmed := h.confirmed
  serving := h.serving
  closing _ hlate := by
    rcases hlate with hc | hc
    · cases hc
    · cases hc
  exposures := h.exposures

theorem Shielded.close {step : Step} (h : s.Shielded) (ho : Steady env s step)
    (hfree : s.phase = .confirmed → isUnlocked step = true) (hn : s.closeNext step = some t) :
    t.Shielded := by
  cases step with
  | closeBegin =>
    rcases Runs.taken hn with ⟨_, rfl⟩
    exact h.closeBegin
  | closeClear =>
    rcases Runs.taken hn with ⟨hguard, rfl⟩
    exact h.closeClear hguard ho
  | closeMask =>
    rcases Runs.taken hn with ⟨hguard, rfl⟩
    refine h.closeMask hguard ?_ ho _
    intro hp
    have hu := hfree hp
    cases hu
  | failAllPending =>
    rcases Runs.taken hn with ⟨_, rfl⟩
    exact h.beside ⟨rfl, id, rfl, rfl, rfl, rfl, rfl, rfl, rfl, rfl, rfl⟩ rfl
  | _ => cases hn

theorem Shielded.next {step : Step} (h : s.Shielded) (ho : Steady env s step)
    (hn : s.next env step = some t) : t.Shielded := by
  have hfree := (next_spec hn).2
  rcases next_cases hn with ⟨step, link, -, hlink, rfl⟩ | hn | hn | hn
  · have hcore := Link.core_next hlink
    exact h.beside ⟨hcore.generation, hcore.ready, rfl, rfl, rfl, rfl, rfl, rfl, rfl, rfl, rfl⟩ rfl
  · exact h.supervise ho hn
  · refine h.activate ho ?_ hn
    intro hp
    have hu := hfree hp
    cases step with
    | expose | closeBegin | closeClear => cases hn
    | _ => cases hu
  · exact h.close ho hfree hn

theorem Shielded.masked (h : s.Shielded) : s.MaskedMeansDisabled := by
  intro hr hm
  rcases h.serving hr with ha | hc | ⟨-, -, ha, -⟩
  · rw [hm] at ha
    cases ha
  · rw [(h.ready hr).2] at hc
    exact .inl hc
  · rw [hm] at ha
    cases ha

end

/-! ## Runs -/

/-- The run lemma: in every run of steady steps, a ready client in the masked state has its
servers disabled, and an unmasked generation becomes ready only to be active. -/
theorem run_shielded (env : Settings) {steps : List Step} {s : Client}
    (hm : Runs.Meets (Client.next env) (Client.Steady env) Client.initial steps)
    (h : Runs.exec (Client.next env) Client.initial steps = some s) :
    s.MaskedMeansDisabled ∧ s.UnmaskedMeansActivated := by
  have hshielded : s.Shielded := Runs.invariant_of_meets (I := Shielded)
    (fun _ _ _ hi ho hn => hi.next ho hn) shielded_initial hm h
  exact ⟨hshielded.masked, hshielded.exposures⟩

/-- An activation aborts the masked generation, and the next one starts without the mask. -/
def restartUnmasked : List Step :=
  [.activate 0, .activateAbort 0, .link (.readerRaises 1 .unavailable),
    .link (.readerFails 1 .unavailable), .joined, .clearReady, .failPending, .discardRequests,
    .stopProcess, .dropProcess, .prepare false, .spawn true, .callInitialize] ++
    roundTrip 2 3 .null ++ [.initialized, .dispatch, .startNotice, .flushNotice .written, .look]

def finishActivation : List Step := [.confirm, .expose, .activateGeneration, .activateEnd 0]

/-- The activation times out after the supervisor's last look at the startup state. -/
def expireActivation : List Step :=
  [.activateExpire 0, .activateLook 0, .activateWithdraw 0, .confirm, .expose]

theorem run_shielded_activation :
    (Runs.exec (Client.next plainSettings) Client.initial
      (startMasked ++ restartUnmasked ++ finishActivation)).isSome ∧
    ∀ s, Runs.exec (Client.next plainSettings) Client.initial
      (startMasked ++ restartUnmasked ++ finishActivation) = some s →
        s.MaskedMeansDisabled ∧ s.UnmaskedMeansActivated :=
  ⟨by decide +kernel, fun _ h => run_shielded plainSettings (by decide +kernel) h⟩

/-- The client is ready and masked, and runs an unmasked generation that nobody checked. -/
theorem unmasked_after_timeout :
    ∃ s, Runs.exec (Client.next plainSettings) Client.initial
      (startMasked ++ restartUnmasked ++ expireActivation) = some s ∧
        ¬ (s.MaskedMeansDisabled ∧ s.UnmaskedMeansActivated) := by
  have hrun : (Runs.exec (Client.next plainSettings) Client.initial
      (startMasked ++ restartUnmasked ++ expireActivation)).map (fun s =>
        (s.link.ready, s.mcpStartupState, s.link.generation, s.maskedStarts, s.verified)) =
          some (true, .masked, 2, [1], [1]) := by
    decide +kernel
  obtain ⟨s, hs, hstate⟩ := Option.map_eq_some_iff.mp hrun
  simp only [Prod.mk.injEq] at hstate
  obtain ⟨hready, hmasked, hgeneration, hstarts, hverified⟩ := hstate
  refine ⟨s, hs, ?_⟩
  rintro ⟨h, -⟩
  have hdisabled := h hready hmasked
  rw [hgeneration, hstarts, hverified] at hdisabled
  simp at hdisabled

end Client

end CodexBridge.AppServer
