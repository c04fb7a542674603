import CodexBridge.AppServer.Link

/-! # The supervisor and the MCP startup state

The supervisor starts one generation after another; `activate_validated_mcp_config` and
`close` run beside it. Reads of the startup state that the source makes without the lock
are steps of their own, and so are the two halves of a section that `close` can fall
between, since it clears the ready event without the lock.
-/

namespace CodexBridge.AppServer

/-! ## State -/

inductive McpStartupState where
  | masked | activating | active
  deriving DecidableEq

/-- Where `_supervise` stands. -/
inductive Phase where
  | unstarted
  | resting
  | launching (masked : Bool)
  | spawned
  | initializing (n : Nat)
  | initialized
  | dispatching
  /-- Writes `initialized`. -/
  | notifying
  | notified
  | readingConfig (n : Nat)
  | readConfig (effective : Json)
  | checked
  | confirmed
  | exposed
  | serving
  /-- In an `except` clause. -/
  | failing
  | clearing
  | failingPending
  | discarding
  | stopping
  | stopped
  | ended
  deriving DecidableEq

/-- Where a call of `activate_validated_mcp_config` stands. -/
inductive Activation where
  | aborting (generation : Nat)
  | restoring (generation : Nat)
  | awaiting
  | expired
  | withdrawing (generation : Nat)
  | abandoning (generation : Nat)
  | returned
  | raised

/-- Where `close` stands. -/
inductive Closing where
  | uncalled
  | begun
  | cleared
  | masked
  deriving DecidableEq

structure Exposure where
  generation : Nat
  startupState : McpStartupState

structure Client where
  link : Link
  phase : Phase
  /-- The supervisor's `generation`, zero before the spawn. -/
  current : Nat
  everReady : Bool
  mcpStartupState : McpStartupState
  mcpActivationGeneration : Option Nat
  mcpActivationComplete : Bool
  /-- Somebody holds `_lifecycle_lock`. -/
  lifecycle : Bool
  activations : Dict Nat Activation
  closed : Bool
  closing : Closing
  maskedStarts : List Nat
  verified : List Nat
  exposures : List Exposure
  activated : List Nat

def Client.initial : Client where
  link := .initial
  phase := .unstarted
  current := 0
  everReady := false
  mcpStartupState := .masked
  mcpActivationGeneration := none
  mcpActivationComplete := false
  lifecycle := false
  activations := .empty
  closed := false
  closing := .uncalled
  maskedStarts := []
  verified := []
  exposures := []
  activated := []

def mcpConfigIsDisabled : Json → Bool
  | .obj config =>
    match Json.field? config "mcp_servers" with
    | none => true
    | some .null => true
    | some (.obj servers) =>
      servers.length ≤ 32 && servers.all fun server =>
        match server.2 with
        | .obj fields => Json.field? fields "enabled" = some (.bool false)
        | _ => false
    | some _ => false
  | _ => false

/-- `config.get("config")`, when both are mappings. -/
def effectiveConfig : Json → Option Json
  | .obj fields =>
    match Json.field? fields "config" with
    | some (.obj config) => some (.obj config)
    | _ => none
  | _ => none

def Settings.unloadDelayAgrees (env : Settings) : Json → Bool
  | .obj config =>
    match env.threadUnloadDelaySeconds with
    | none => true
    | some seconds => Json.field? config "thread_unload_delay_secs" = some (.int seconds)
  | _ => false

namespace Client

variable (s : Client)

def restoreMcpBootstrap (generation : Option Nat) : Client :=
  if s.mcpStartupState = .activating ∧
      (generation = none ∨ s.mcpActivationGeneration = generation) then
    { s with
      mcpStartupState := .masked
      mcpActivationGeneration := none
      mcpActivationComplete := true }
  else s

def activateMcpGeneration (generation : Nat) : Client :=
  if s.mcpStartupState = .activating ∧ s.mcpActivationGeneration = some generation then
    { s with
      mcpStartupState := .active
      mcpActivationGeneration := none
      mcpActivationComplete := true
      activated := generation :: s.activated }
  else s

def setActivation (i : Nat) (activation : Activation) : Client :=
  { s with activations := s.activations.set i activation }

/-- The section of `activate_validated_mcp_config`. -/
def beginActivation (i : Nat) : Client :=
  if s.mcpStartupState = .active then s.setActivation i .returned
  else if s.mcpStartupState ≠ .masked ∨ !s.link.ready ∨ !s.link.isAlive then
    s.setActivation i .raised
  else
    { s.setActivation i (.aborting s.link.generation) with
      mcpStartupState := .activating
      mcpActivationGeneration := some (s.link.generation + 1)
      mcpActivationComplete := false
      lifecycle := true }

/-- `abort_generation` for an activation. -/
def abortForActivation (i : Nat) (generation : Nat) : Client :=
  let (aborted, link) := s.link.abortGeneration generation s.closed
  if aborted then { s.setActivation i .awaiting with link := link, lifecycle := false }
  else s.setActivation i (.restoring generation)

def endActivation (i : Nat) : Client :=
  if s.mcpStartupState ≠ .active ∨ !s.link.ready then s.setActivation i .raised
  else s.setActivation i .returned

/-- `_request_for_generation` for the supervisor, up to its registration. -/
def call (env : Settings) (method : String) (next : Nat → Phase) : Client :=
  match s.link.register env s.current method false with
  | .ok (n, link) => { s with link := link, phase := next n }
  | .error _ => { s with phase := .failing }

def await (n : Nat) (next : Json → Client) : Option Client :=
  match s.link.requests.get? n with
  | some ⟨_, _, .ended (.result value), _⟩ => some (next value)
  | some ⟨_, _, .ended (.raised _), _⟩ => some { s with phase := .failing }
  | _ => none

def isCurrent : Bool :=
  s.link.generation = s.current && s.link.process = some s.current && !s.closed

/-- The look at the startup state after `initialized`. -/
def lookAtStartupState (env : Settings) : Client :=
  if s.mcpStartupState = .masked ∨ env.threadUnloadDelaySeconds ≠ none then
    s.call env "config/read" .readingConfig
  else { s with phase := .checked }

def judgeConfig (env : Settings) (effective : Json) : Client :=
  if s.mcpStartupState = .masked ∧ mcpConfigIsDisabled effective = false then
    { s with phase := .failing }
  else if env.unloadDelayAgrees effective = false then { s with phase := .failing }
  else
    { s with
      phase := .checked
      verified := if s.mcpStartupState = .masked then s.current :: s.verified else s.verified }

def dropProcess : Client :=
  { s with
    link := s.link.clearProcess s.current (if s.current = 0 then none else some s.current)
    phase := if s.closed || !s.everReady then .ended else .resting
    current := 0 }

end Client

/-! ## Steps -/

inductive Step where
  | link (step : LinkStep)
  | start
  | leave
  /-- `_mcp_startup_state` is read for the overrides, which can fail. -/
  | prepare (overrides : Bool)
  | spawn (started : Bool)
  | callInitialize
  | initialized
  | dispatch
  | startNotice
  | flushNotice (result : Pipe)
  | look
  | configRead
  | judge
  | confirm
  | expose
  | activateGeneration
  | joined
  /-- Anything in the `try` raises. -/
  | fail
  | restoreOnFailure
  | clearReady
  | failPending
  | discardRequests
  | stopProcess
  | dropProcess
  | activate (i : Nat)
  | activateAbort (i : Nat)
  | activateRestore (i : Nat)
  | activateEnd (i : Nat)
  | activateExpire (i : Nat)
  | activateLook (i : Nat)
  | activateWithdraw (i : Nat)
  | activateAbandon (i : Nat)
  | closeBegin
  | closeClear
  | closeMask
  | failAllPending

namespace Client

/-- The phases of a `try` that can raise at any time. -/
def isTrying : Phase → Bool
  | .spawned | .initialized | .dispatching | .notified | .readConfig _ | .checked => true
  | _ => false

def inPhase (s : Client) (phase : Phase) (t : Client) : Option Client :=
  if s.phase = phase then some t else none

def superviseNext (env : Settings) (s : Client) : Step → Option Client
  | .start =>
    if s.phase = .unstarted ∧ s.closed = false ∧ s.lifecycle = false then
      some { s with phase := .resting }
    else none
  | .leave => if s.phase = .resting ∧ s.closed then some { s with phase := .ended } else none
  | .prepare overrides =>
    if s.phase = .resting ∧ s.closed = false then
      if s.mcpStartupState = .masked ∧ overrides = false then some { s with phase := .failing }
      else some { s with phase := .launching (s.mcpStartupState = .masked) }
    else none
  | .spawn started =>
    match s.phase with
    | .launching masked =>
      if started then
        let g := s.link.generation + 1
        some { s with
          link := s.link.spawn
          phase := .spawned
          current := g
          maskedStarts := if masked then g :: s.maskedStarts else s.maskedStarts }
      else some { s with phase := .failing }
    | _ => none
  | .callInitialize =>
    s.inPhase .spawned (s.call env "initialize" .initializing)
  | .initialized =>
    match s.phase with
    | .initializing n => s.await n fun value =>
      { s with phase := if env.validInitializeResponse value then .initialized else .failing }
    | _ => none
  | .dispatch =>
    s.inPhase .initialized
      (if s.isCurrent then
        { s with
          link := { s.link with dispatchGeneration := some s.current }
          phase := .dispatching }
      else { s with phase := .failing })
  | .startNotice =>
    if s.phase = .dispatching ∧ s.link.writer = none then
      match s.link.openStream s.current with
      | some p =>
        some { s with link := { s.link with writer := some ⟨.notice, p⟩ }, phase := .notifying }
      | none => some { s with phase := .failing }
    else none
  | .flushNotice result =>
    match s.phase, s.link.writer with
    | .notifying, some ⟨.notice, p⟩ =>
      (s.link.flush ⟨.notice, p⟩ s.current result).map fun link =>
        { s with link := link, phase := if result = .written then .notified else .failing }
    | _, _ => none
  | .look => s.inPhase .notified (s.lookAtStartupState env)
  | .configRead =>
    match s.phase with
    | .readingConfig n => s.await n fun value =>
      match effectiveConfig value with
      | some effective => { s with phase := .readConfig effective }
      | none => { s with phase := .failing }
    | _ => none
  | .judge =>
    match s.phase with
    | .readConfig effective => some (s.judgeConfig env effective)
    | _ => none
  | .confirm =>
    s.inPhase .checked { s with phase := if s.isCurrent then .confirmed else .failing }
  | .expose =>
    s.inPhase .confirmed
      { s with
        link := { s.link with ready := true }
        phase := .exposed
        everReady := true
        exposures := ⟨s.current, s.mcpStartupState⟩ :: s.exposures }
  | .activateGeneration =>
    s.inPhase .exposed { s.activateMcpGeneration s.current with phase := .serving }
  | .joined =>
    if s.phase = .serving ∧ s.current ∉ s.link.readers ∧
        s.link.raisingReaders.all (fun r => r.1 ≠ s.current) then
      let failure := (s.link.generationFailures.get? s.current).getD .unavailable
      let link := if s.closed then s.link
        else { s.link with failers := (s.current, failure) :: s.link.failers }
      some { s with link := link, phase := .clearing }
    else none
  | .fail => if isTrying s.phase then some { s with phase := .failing } else none
  | .restoreOnFailure =>
    s.inPhase .failing { s.restoreMcpBootstrap (some s.current) with phase := .clearing }
  | .clearReady =>
    s.inPhase .clearing { s with link := s.link.clearReady s.current, phase := .failingPending }
  | .failPending =>
    s.inPhase .failingPending
      { s with
        link := s.link.failGenerationPending s.current .unavailable
        phase := .discarding }
  | .discardRequests =>
    s.inPhase .discarding { s with link := s.link.discardGeneration s.current, phase := .stopping }
  | .stopProcess =>
    s.inPhase .stopping
      { s with
        link := { s.link with stdinClosed := s.current :: s.link.stdinClosed }
        phase := .stopped }
  | .dropProcess => s.inPhase .stopped s.dropProcess
  | _ => none

def inActivation (s : Client) (i : Nat) (act : Activation → Option Client) : Option Client :=
  match s.activations.get? i with
  | some activation => act activation
  | none => none

def activateNext (env : Settings) (s : Client) : Step → Option Client
  | .activate i =>
    if s.activations.contains i = false ∧ s.lifecycle = false ∧ env.enableMcp then
      some (s.beginActivation i)
    else none
  | .activateAbort i => s.inActivation i fun
      | .aborting generation => some (s.abortForActivation i generation)
      | _ => none
  | .activateRestore i => s.inActivation i fun
      | .restoring generation =>
        some { (s.restoreMcpBootstrap (some (generation + 1))).setActivation i .raised with
          lifecycle := false }
      | _ => none
  | .activateEnd i => s.inActivation i fun
      | .awaiting => if s.mcpActivationComplete then some (s.endActivation i) else none
      | _ => none
  | .activateExpire i => s.inActivation i fun
      | .awaiting =>
        if s.mcpActivationComplete then none else some (s.setActivation i .expired)
      | _ => none
  | .activateLook i => s.inActivation i fun
      | .expired => some (s.setActivation i (.withdrawing s.link.generation))
      | _ => none
  | .activateWithdraw i => s.inActivation i fun
      | .withdrawing generation =>
        some ((s.restoreMcpBootstrap none).setActivation i (.abandoning generation))
      | _ => none
  | .activateAbandon i => s.inActivation i fun
      | .abandoning generation =>
        some { s.setActivation i .raised with
          link := (s.link.abortGeneration generation s.closed).2 }
      | _ => none
  | _ => none

def closeNext (s : Client) : Step → Option Client
  | .closeBegin =>
    if s.lifecycle = false ∧ s.closing = .uncalled then
      some { s with closed := true, closing := .begun, lifecycle := true }
    else none
  | .closeClear =>
    if s.closing = .begun then
      some { s with link := { s.link with ready := false }, closing := .cleared }
    else none
  | .closeMask =>
    if s.closing = .cleared then
      some { s with
        link := { s.link with closers := s.link.process.toList ++ s.link.closers }
        mcpStartupState := .masked
        mcpActivationGeneration := none
        mcpActivationComplete := true
        lifecycle := false
        closing := .masked }
    else none
  | .failAllPending =>
    if s.closing = .masked then some { s with link := s.link.failAllPending } else none
  | _ => none

def take (env : Settings) (s : Client) : Step → Option Client
  | .link step => (s.link.next env s.closed step).map fun link => { s with link := link }
  | .activate i => s.activateNext env (.activate i)
  | .activateAbort i => s.activateNext env (.activateAbort i)
  | .activateRestore i => s.activateNext env (.activateRestore i)
  | .activateEnd i => s.activateNext env (.activateEnd i)
  | .activateExpire i => s.activateNext env (.activateExpire i)
  | .activateLook i => s.activateNext env (.activateLook i)
  | .activateWithdraw i => s.activateNext env (.activateWithdraw i)
  | .activateAbandon i => s.activateNext env (.activateAbandon i)
  | .closeBegin => s.closeNext .closeBegin
  | .closeClear => s.closeNext .closeClear
  | .closeMask => s.closeNext .closeMask
  | .failAllPending => s.closeNext .failAllPending
  | step => s.superviseNext env step

/-- Steps that fall between the two halves of the section that sets the ready event:
`close` enters without the state lock. -/
def isUnlocked : Step → Bool
  | .expose | .closeBegin | .closeClear => true
  | _ => false

def next (env : Settings) (s : Client) (step : Step) : Option Client :=
  if s.phase = .confirmed ∧ isUnlocked step = false then none else s.take env step

theorem inPhase_spec {s t u : Client} {phase : Phase} (h : s.inPhase phase u = some t) :
    s.phase = phase ∧ t = u := by
  unfold inPhase at h
  rcases Runs.taken h with ⟨hp, rfl⟩
  exact ⟨hp, rfl⟩

theorem inActivation_spec {s t : Client} {i : Nat} {act : Activation → Option Client}
    (h : s.inActivation i act = some t) :
    ∃ a, s.activations.get? i = some a ∧ act a = some t := by
  unfold inActivation at h
  split at h
  · rename_i a ha
    exact ⟨a, ha, h⟩
  · cases h

theorem next_spec {s t : Client} {env : Settings} {step : Step} (h : s.next env step = some t) :
    s.take env step = some t ∧ (s.phase = .confirmed → isUnlocked step = true) := by
  unfold next at h
  split at h
  · cases h
  rename_i hguard
  refine ⟨h, fun hp => ?_⟩
  simpa [hp] using hguard

theorem next_of_take {s : Client} {env : Settings} {step : Step} (h : s.phase ≠ .confirmed) :
    s.next env step = s.take env step := by
  unfold next
  rw [if_neg fun hc => h hc.1]

/-- A contract that admits every message. -/
def plainSettings : Settings where
  maxPendingRequests := 4
  threadUnloadDelaySeconds := none
  enableMcp := true
  validClientResponse _ _ := true
  validInitializeResponse _ := true

def roundTrip (generation n : Nat) (value : Json) : List Step :=
  [.link (.startWrite n), .link (.flush .written),
    .link (.response generation (.number n) (.result value)), .link (.settle 0), .link (.deliver n)]

def startMasked : List Step :=
  [.start, .prepare true, .spawn true, .callInitialize] ++ roundTrip 1 1 .null ++
    [.initialized, .dispatch, .startNotice, .flushNotice .written, .look] ++
    roundTrip 1 2 (.obj [("config", .obj [])]) ++
    [.configRead, .judge, .confirm, .expose, .activateGeneration]

end Client

end CodexBridge.AppServer
