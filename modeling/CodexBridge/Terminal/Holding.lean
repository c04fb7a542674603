import CodexBridge.Terminal.Workspace
import CodexBridge.Library.Runs

/-! # Who holds what

A session that holds something is being opened or has a thread that waits for its command, and
as long as its client is not down it holds both the lease and the reservation. What leaves the
holders, the client and the threads as they are leaves all of this as it is.
-/

namespace CodexBridge.Terminal

/-! ## The condition -/

def Operation.closes : Operation → Option Nat
  | .opening k .failing => some k
  | .stopping k => some k
  | .finishing k => some k
  | _ => none

/-- The client of the session can still raise in `close`. -/
def Session.canRaise (s : Session) : Bool :=
  match s.client with
  | none => false
  | some c => !c.isClosed

/-- The thread of `_run` starts, and no client raises in `close`. -/
def World.isSafe (w : World) : Label → Bool
  | .openStep raises =>
    match w.operation with
    | .opening _ .running => !raises
    | _ => true
  | .clientClose raises =>
    match w.operation.closes.bind fun k => w.sessions[k]? with
    | none => true
    | some s => !raises || !s.canRaise
  | _ => true

/-- The thread of `_run` has still to release what the session holds. -/
def Session.isLive (s : Session) : Bool := s.waiter = .requesting || s.waiter = .ended

def Session.flags (s : Session) : Option (Bool × Bool) :=
  s.client.map fun c => (c.isClosed, c.isDown)

def Operation.target : Operation → Option Nat
  | .idle => none
  | .opening k _ => some k
  | .writing k _ => some k
  | .sending k _ => some k
  | .resizing k => some k
  | .stopping k => some k
  | .finishing k => some k
  | .releasing k => some k

def Operation.isPlain : Operation → Bool
  | .opening _ _ => false
  | .finishing _ => false
  | .releasing _ => false
  | _ => true

def StageFits (current : Option Nat) (k : Nat) (s : Session) : Stage → Prop
  | .checking => s.flags = none ∧ s.lease = true ∧ s.waiter = .unstarted ∧ current ≠ some k
  | .creating =>
    s.flags = none ∧ s.lease = true ∧ s.reservation = true ∧ s.waiter = .unstarted ∧
      current ≠ some k
  | .starting => s.waiter = .unstarted ∧ s.flags.isSome = true ∧ current ≠ some k
  | .running => s.waiter = .unstarted ∧ s.flags.isSome = true ∧ current = some k
  | .watching => s.isLive = true
  | .failing =>
    s.flags.isSome = true ∧ (s.isLive = true ∨ (s.waiter = .unstarted ∧ current ≠ some k))
  | .releasing =>
    (∀ flags, s.flags = some flags → flags.2 = true) ∧
      (s.isLive = true ∨ (s.waiter = .unstarted ∧ current ≠ some k))

structure Fits (operation : Operation) (current : Option Nat) (k : Nat) (s : Session) :
    Prop where
  held : ∀ flags, s.flags = some flags → flags.2 = false → s.lease = true ∧ s.reservation = true
  down : ∀ flags, s.flags = some flags → flags.1 = true → flags.2 = true
  survives : s.waiter ≠ .died
  ended : s.state = .closed ↔ s.waiter = .done
  live : s.isLive = true → current = some k ∧ s.flags.isSome = true
  alone : s.isLive = true → ∀ j stage, operation = .opening j stage → j = k
  rests : s.isLive = false → (∀ stage, operation ≠ .opening k stage) →
    s.lease = false ∧ s.reservation = false
  placed : current = some k → s.state ≠ .closed → s.isLive = true ∨ operation = .opening k .running
  stage : ∀ stage, operation = .opening k stage → StageFits current k s stage
  finishing : operation = .finishing k ∨ operation = .releasing k → s.waiter = .ended
  releasing : operation = .releasing k → ∀ flags, s.flags = some flags → flags.2 = true

structure Duty (w : World) : Prop where
  target : ∀ k, w.operation.target = some k → k < w.sessions.length
  current : ∀ k, w.current = some k → k < w.sessions.length
  fits : ∀ k s, w.sessions[k]? = some s → Fits w.operation w.current k s

theorem duty_initial : Duty World.initial where
  target := by
    intro k hk
    cases hk
  current := by
    intro k hk
    cases hk
  fits := by
    intro k s hs
    cases hs

/-! ## Frames -/

theorem getElem?_update (w : World) (k : Nat) (f : Session → Session) (j : Nat) :
    (w.update k f).sessions[j]? = if k = j then w.sessions[j]?.map f else w.sessions[j]? := by
  unfold World.update
  rw [List.getElem?_modify]
  by_cases h : k = j
  · simp [h]
  · simp [h]

/-- What a session holds and who releases it stay the same. -/
structure Keeps (s t : Session) : Prop where
  lease : t.lease = s.lease
  reservation : t.reservation = s.reservation
  flags : t.flags = s.flags
  waiter : t.waiter = s.waiter ∨ (s.waiter = .requesting ∧ t.waiter = .ended)
  ended : t.state = .closed ↔ s.state = .closed

namespace Keeps

variable {s t : Session}

theorem refl (s : Session) : Keeps s s := ⟨rfl, rfl, rfl, Or.inl rfl, Iff.rfl⟩

theorem isLive (h : Keeps s t) : t.isLive = s.isLive := by
  unfold Session.isLive
  cases h.waiter with
  | inl heq => rw [heq]
  | inr hboth => simp [hboth.1, hboth.2]

theorem waiter_iff (h : Keeps s t) {x : Waiter} (hrequesting : x ≠ .requesting)
    (hended : x ≠ .ended) : t.waiter = x ↔ s.waiter = x := by
  cases h.waiter with
  | inl heq => rw [heq]
  | inr hboth =>
    rw [hboth.1, hboth.2]
    constructor
    · intro heq
      exact absurd heq.symm hended
    · intro heq
      exact absurd heq.symm hrequesting

theorem stageFits (h : Keeps s t) {current : Option Nat} {k : Nat} {stage : Stage}
    (hs : StageFits current k s stage) : StageFits current k t stage := by
  have hunstarted := h.waiter_iff (x := .unstarted) (by decide) (by decide)
  cases stage <;>
    simpa only [StageFits, h.flags, h.lease, h.reservation, h.isLive, hunstarted] using hs

theorem fits (h : Keeps s t) {operation : Operation} {current : Option Nat} {k : Nat}
    (hs : Fits operation current k s) : Fits operation current k t where
  held := by
    rw [h.flags, h.lease, h.reservation]
    exact hs.held
  down := by
    rw [h.flags]
    exact hs.down
  survives := by
    intro hdied
    exact hs.survives ((h.waiter_iff (by decide) (by decide)).mp hdied)
  ended := by
    rw [h.ended, h.waiter_iff (by decide) (by decide)]
    exact hs.ended
  live := by
    rw [h.isLive, h.flags]
    exact hs.live
  alone := by
    rw [h.isLive]
    exact hs.alone
  rests := by
    rw [h.isLive, h.lease, h.reservation]
    exact hs.rests
  placed := by
    intro hcurrent hstate
    rw [h.isLive]
    exact hs.placed hcurrent fun hclosed => hstate (h.ended.mpr hclosed)
  stage := fun stage heq => h.stageFits (hs.stage stage heq)
  finishing := by
    intro heq
    have hended := hs.finishing heq
    cases h.waiter with
    | inl hsame => rw [hsame, hended]
    | inr hboth => exact hboth.2
  releasing := by
    rw [h.flags]
    exact hs.releasing

end Keeps

/-- An operation that is no opening and no finishing makes no difference. -/
theorem Fits.plain {a b : Operation} {current : Option Nat} {k : Nat} {s : Session}
    (h : Fits a current k s) (ha : a.isPlain = true) (hb : b.isPlain = true) :
    Fits b current k s where
  held := h.held
  down := h.down
  survives := h.survives
  ended := h.ended
  live := h.live
  alone := by
    intro _ j stage heq
    rw [heq] at hb
    cases hb
  rests := by
    intro hlive _
    apply h.rests hlive
    intro stage heq
    rw [heq] at ha
    cases ha
  placed := by
    intro hcurrent hstate
    cases h.placed hcurrent hstate with
    | inl hlive => exact Or.inl hlive
    | inr heq =>
      rw [heq] at ha
      cases ha
  stage := by
    intro stage heq
    rw [heq] at hb
    cases hb
  finishing := by
    intro heq
    cases heq with
    | inl heq =>
      rw [heq] at hb
      cases hb
    | inr heq =>
      rw [heq] at hb
      cases hb
  releasing := by
    intro heq
    rw [heq] at hb
    cases hb

theorem Fits.elsewhere {a b : Operation} {current : Option Nat} {j : Nat} {s : Session}
    (h : Fits a current j s) (ha : a.target ≠ some j) (hb : b.target ≠ some j)
    (halone : s.isLive = true → ∀ k stage, b = .opening k stage → k = j) :
    Fits b current j s where
  held := h.held
  down := h.down
  survives := h.survives
  ended := h.ended
  live := h.live
  alone := halone
  rests := by
    intro hlive hnone
    apply h.rests hlive
    intro stage heq
    rw [heq] at ha
    exact ha rfl
  placed := by
    intro hcurrent hstate
    cases h.placed hcurrent hstate with
    | inl hlive => exact Or.inl hlive
    | inr heq =>
      rw [heq] at ha
      exact absurd rfl ha
  stage := by
    intro stage heq
    rw [heq] at hb
    exact absurd rfl hb
  finishing := by
    intro heq
    cases heq with
    | inl heq =>
      rw [heq] at hb
      exact absurd rfl hb
    | inr heq =>
      rw [heq] at hb
      exact absurd rfl hb
  releasing := by
    intro heq
    rw [heq] at hb
    exact absurd rfl hb

namespace Duty

variable {w v : World}

/-- A step that moves nothing, of an operation that neither opens nor finishes a session or
beside one. -/
theorem keeps (h : Duty w) (hlength : v.sessions.length = w.sessions.length)
    (hcurrent : v.current = w.current) (hsessions : ∀ (k : Nat) t, v.sessions[k]? = some t →
      ∃ s, w.sessions[k]? = some s ∧ Keeps s t)
    (hoperation : v.operation = w.operation ∨ (w.operation.isPlain = true ∧
      v.operation.isPlain = true ∧ ∀ k, v.operation.target = some k → k < w.sessions.length)) :
    Duty v where
  target := by
    intro k hk
    rw [hlength]
    cases hoperation with
    | inl hsame =>
      rw [hsame] at hk
      exact h.target k hk
    | inr hplain => exact hplain.2.2 k hk
  current := by
    rw [hcurrent, hlength]
    exact h.current
  fits := by
    intro k t ht
    obtain ⟨s, hs, hkeeps⟩ := hsessions k t ht
    have hfits := hkeeps.fits (h.fits k s hs)
    rw [hcurrent]
    cases hoperation with
    | inl hsame =>
      rw [hsame]
      exact hfits
    | inr hplain => exact hfits.plain hplain.1 hplain.2.1

theorem moves (h : Duty w) {k : Nat} {s t : Session} (hs : w.sessions[k]? = some s)
    (hlength : v.sessions.length = w.sessions.length)
    (hsessions : ∀ j, v.sessions[j]? = if k = j then some t else w.sessions[j]?)
    (hcurrent : v.current = w.current) (hw : ∀ j, w.operation.target = some j → j = k)
    (hv : ∀ j, v.operation.target = some j → j = k)
    (hopening : ∀ stage, v.operation = .opening k stage → ∃ old, w.operation = .opening k old)
    (hfits : Fits v.operation w.current k t) : Duty v where
  target := by
    intro j hj
    rw [hlength, hv j hj]
    exact (List.getElem?_eq_some_iff.mp hs).1
  current := by
    rw [hcurrent, hlength]
    exact h.current
  fits := by
    intro j found hfound
    rw [hsessions] at hfound
    rw [hcurrent]
    split at hfound
    · rename_i heq
      cases hfound
      rw [← heq]
      exact hfits
    rename_i hne
    apply (h.fits j found hfound).elsewhere
    · intro htarget
      exact hne (hw j htarget).symm
    · intro htarget
      exact hne (hv j htarget).symm
    · intro hlive i stage heq
      have hi : i = k := hv i (by rw [heq]; rfl)
      rw [hi] at heq ⊢
      obtain ⟨old, hold⟩ := hopening stage heq
      exact (h.fits j found hfound).alone hlive k old hold

theorem update_keeps {k : Nat} {f : Session → Session}
    (hf : ∀ s, w.sessions[k]? = some s → Keeps s (f s)) (j : Nat) (t : Session)
    (ht : (w.update k f).sessions[j]? = some t) : ∃ s, w.sessions[j]? = some s ∧ Keeps s t := by
  rw [getElem?_update] at ht
  split at ht
  · rename_i heq
    obtain ⟨s, hs, hft⟩ := Option.map_eq_some_iff.mp ht
    rw [← heq] at hs ⊢
    exact ⟨s, hs, hft ▸ hf s hs⟩
  · exact ⟨t, ht, Keeps.refl t⟩

theorem length_update (w : World) (k : Nat) (f : Session → Session) :
    (w.update k f).sessions.length = w.sessions.length := List.length_modify _ _ _

theorem touches (h : Duty w) {k : Nat} {f : Session → Session}
    (hf : ∀ s, w.sessions[k]? = some s → Keeps s (f s)) : Duty (w.update k f) :=
  h.keeps (length_update w k f) rfl (update_keeps hf) (Or.inl rfl)

theorem turns (h : Duty w) {operation : Operation} (hw : w.operation.isPlain = true)
    (hv : operation.isPlain = true)
    (htarget : ∀ k, operation.target = some k → k < w.sessions.length) :
    Duty (w.withOperation operation) :=
  h.keeps rfl rfl (fun _ t ht => ⟨t, ht, Keeps.refl t⟩) (Or.inr ⟨hw, hv, htarget⟩)

theorem stop (h : Duty w) (hplain : w.operation.isPlain = true) (k : Nat) (message : Message) :
    Duty (w.stop k message) := by
  unfold World.stop
  have hidle : Duty (w.withOperation .idle) := h.turns hplain rfl fun j hj => by cases hj
  cases hs : w.sessions[k]? with
  | none => exact hidle
  | some s =>
    dsimp only
    split
    · exact hidle
    rename_i hover
    have hkeeps : ∀ found, w.sessions[k]? = some found →
        Keeps found { found with state := .closing, message := message } := by
      intro found hfound
      rw [hs] at hfound
      cases hfound
      refine ⟨rfl, rfl, rfl, Or.inl rfl, ?_⟩
      constructor
      · intro hclosed
        cases hclosed
      · intro hclosed
        exact absurd (by simp [Session.isOver, hclosed]) hover
    apply (h.touches hkeeps).turns hplain rfl
    intro j hj
    cases hj
    rw [length_update]
    exact (List.getElem?_eq_some_iff.mp hs).1

theorem onSession (h : Duty w) {k : Nat} {f : Session → Option Session}
    (hf : ∀ s t, f s = some t → Keeps s t) (hs : w.onSession k f = some v) : Duty v := by
  unfold World.onSession at hs
  cases hsession : w.sessions[k]? with
  | none =>
    rw [hsession] at hs
    cases hs
  | some s =>
    rw [hsession] at hs
    obtain ⟨t, ht, hv⟩ := Option.map_eq_some_iff.mp hs
    rw [← hv]
    apply h.touches
    intro found hfound
    rw [hsession] at hfound
    cases hfound
    exact hf s t ht

theorem onClient (h : Duty w) {k : Nat} {f : Session → Client → Option Session}
    (hf : ∀ s c t, s.client = some c → f s c = some t → Keeps s t)
    (hs : w.onClient k f = some v) : Duty v := by
  apply h.onSession _ hs
  intro s t ht
  cases hc : s.client with
  | none =>
    rw [hc] at ht
    cases ht
  | some c =>
    rw [hc] at ht
    exact hf s c t hc ht

end Duty

theorem keeps_stopAsync (s : Session) (starts : Bool) (message : Message) (dropped : Bool) :
    Keeps s (s.stopAsync starts message dropped) := by
  unfold Session.stopAsync
  split
  · exact ⟨rfl, rfl, rfl, Or.inl rfl, Iff.rfl⟩
  · exact Keeps.refl s

theorem Keeps.trans {s t u : Session} (h : Keeps s t) (hu : Keeps t u) : Keeps s u where
  lease := hu.lease.trans h.lease
  reservation := hu.reservation.trans h.reservation
  flags := hu.flags.trans h.flags
  waiter := by
    cases hu.waiter with
    | inl heq =>
      rw [heq]
      exact h.waiter
    | inr hboth =>
      cases h.waiter with
      | inl heq =>
        rw [heq] at hboth
        exact Or.inr hboth
      | inr hearlier =>
        rw [hearlier.2] at hboth
        cases hboth.1
  ended := hu.ended.trans h.ended

theorem keeps_onOutput (maximumBytes : Nat) (starts : Bool) (s : Session) (n : Notification) :
    Keeps s (s.onOutput maximumBytes starts n) := by
  unfold Session.onOutput
  split
  · exact Keeps.refl s
  split
  · exact keeps_stopAsync _ _ _ _
  · exact keeps_stopAsync _ _ _ _
  · split
    · exact Keeps.refl s
    rename_i hover
    have htaken : ∀ output log appended, Keeps s { s with
        state := .running
        message := .workspace
        output := output
        log := log
        appended := appended } := by
      intro output log appended
      refine ⟨rfl, rfl, rfl, Or.inl rfl, ?_⟩
      constructor
      · intro hclosed
        cases hclosed
      · intro hclosed
        exact absurd (by simp [Session.isOver, hclosed]) hover
    unfold Session.take
    dsimp only
    split
    · exact (htaken _ _ _).trans (keeps_stopAsync _ _ _ _)
    · exact htaken _ _ _

theorem keeps_commandEnds (s : Session) (result : Option (Option Int))
    (h : s.waiter = .requesting) : Keeps s (s.commandEnds result) := by
  unfold Session.commandEnds
  cases result with
  | none => exact ⟨rfl, rfl, rfl, Or.inr ⟨h, rfl⟩, Iff.rfl⟩
  | some code => exact ⟨rfl, rfl, rfl, Or.inr ⟨h, rfl⟩, Iff.rfl⟩

theorem keeps_client {s : Session} {c d : Client} (hc : s.client = some c)
    (hclosed : d.isClosed = c.isClosed) (hdown : d.isDown = c.isDown) :
    Keeps s { s with client := some d } := by
  refine ⟨rfl, rfl, ?_, Or.inl rfl, Iff.rfl⟩
  simp [Session.flags, hc, hclosed, hdown]

theorem keeps_receives {s t : Session} {c : Client} {n : Notification} (hc : s.client = some c)
    (h : World.receives s c n = some t) : Keeps s t := by
  unfold World.receives at h
  split at h
  · cases h
  rw [← Option.some.inj h]
  have hkeeps := keeps_client (d := { c with
    queue := c.queue ++ [{ n with early := decide (s.waiter = .requesting) }] }) hc rfl rfl
  exact ⟨hkeeps.lease, hkeeps.reservation, hkeeps.flags, hkeeps.waiter, hkeeps.ended⟩

theorem keeps_dequeues {s t : Session} {c : Client} (hc : s.client = some c)
    (h : World.dequeues s c = some t) : Keeps s t := by
  unfold World.dequeues at h
  split at h
  · rw [← Option.some.inj h]
    exact keeps_client hc rfl rfl
  · cases h

theorem keeps_runCallback {maximumBytes : Nat} {starts : Bool} {s t : Session} {c : Client}
    (hc : s.client = some c) (h : World.runCallback maximumBytes starts s c = some t) :
    Keeps s t := by
  unfold World.runCallback at h
  split at h
  · cases h
  · rw [← Option.some.inj h]
    exact (keeps_client (d := { c with current := none }) hc rfl rfl).trans (keeps_onOutput _ _ _ _)

theorem keeps_watches {s t : Session} {reason : Option Message}
    (h : World.watches s reason = some t) : Keeps s t := by
  unfold World.watches at h
  split at h
  · cases h
  split at h
  · rw [← Option.some.inj h]
    exact ⟨rfl, rfl, rfl, Or.inl rfl, Iff.rfl⟩
  split at h
  · rw [← Option.some.inj h]
    exact Keeps.refl s
  · rw [← Option.some.inj h]
    exact ⟨rfl, rfl, rfl, Or.inl rfl, Iff.rfl⟩

theorem keeps_readsOn (s : Session) : Keeps s s.readsOn := ⟨rfl, rfl, rfl, Or.inl rfl, Iff.rfl⟩

end CodexBridge.Terminal
