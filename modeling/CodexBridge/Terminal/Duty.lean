import CodexBridge.Terminal.Holding

/-! # Who gives back

The steps of an operation hand what a session holds from the opening to the thread that waits
for the command, and that thread releases all of it. This needs no more than that the thread
starts and that no client fails to close.
-/

namespace CodexBridge.Terminal

/-! ## Steps of the operation -/

theorem Fits.opening {current : Option Nat} {k : Nat} {s : Session} {stage : Stage}
    (held : ∀ flags, s.flags = some flags → flags.2 = false → s.lease = true ∧ s.reservation = true)
    (down : ∀ flags, s.flags = some flags → flags.1 = true → flags.2 = true)
    (survives : s.waiter ≠ .died) (ended : s.state = .closed ↔ s.waiter = .done)
    (live : s.isLive = true → current = some k ∧ s.flags.isSome = true)
    (placed : current = some k → s.state ≠ .closed → s.isLive = true ∨ stage = .running)
    (fits : StageFits current k s stage) : Fits (.opening k stage) current k s where
  held := held
  down := down
  survives := survives
  ended := ended
  live := live
  alone := by
    intro _ j other heq
    cases heq
    rfl
  rests := by
    intro _ hnone
    exact absurd rfl (hnone stage)
  placed := by
    intro hcurrent hstate
    cases placed hcurrent hstate with
    | inl hlive => exact Or.inl hlive
    | inr heq =>
      rw [heq]
      exact Or.inr rfl
  stage := by
    intro other heq
    cases heq
    exact fits
  finishing := by
    intro heq
    cases heq with
    | inl heq => cases heq
    | inr heq => cases heq
  releasing := by
    intro heq
    cases heq

theorem Fits.restage {current : Option Nat} {k : Nat} {s : Session} {a b : Stage}
    (h : Fits (.opening k a) current k s) (ha : a ≠ .running) (hb : StageFits current k s b) :
    Fits (.opening k b) current k s := by
  apply Fits.opening h.held h.down h.survives h.ended h.live _ hb
  intro hcurrent hstate
  cases h.placed hcurrent hstate with
  | inl hlive => exact Or.inl hlive
  | inr heq =>
    cases heq
    exact absurd rfl ha

theorem isLive_of_unstarted {s : Session} (h : s.waiter = .unstarted) : s.isLive = false := by
  simp [Session.isLive, h]

theorem Fits.settles {current : Option Nat} {k : Nat} {s : Session}
    (held : ∀ flags, s.flags = some flags → flags.2 = false → s.lease = true ∧ s.reservation = true)
    (down : ∀ flags, s.flags = some flags → flags.1 = true → flags.2 = true)
    (survives : s.waiter ≠ .died) (ended : s.state = .closed ↔ s.waiter = .done)
    (live : s.isLive = true → current = some k ∧ s.flags.isSome = true)
    (rests : s.isLive = false → s.lease = false ∧ s.reservation = false)
    (placed : current = some k → s.state ≠ .closed → s.isLive = true) :
    Fits .idle current k s where
  held := held
  down := down
  survives := survives
  ended := ended
  live := live
  alone := by
    intro _ j stage heq
    cases heq
  rests := fun hlive _ => rests hlive
  placed := fun hcurrent hstate => Or.inl (placed hcurrent hstate)
  stage := by
    intro stage heq
    cases heq
  finishing := by
    intro heq
    cases heq with
    | inl heq => cases heq
    | inr heq => cases heq
  releasing := by
    intro heq
    cases heq

namespace Duty

variable {w v : World}

theorem not_isLive_of_not_isOccupied (h : Duty w) (hfree : w.isOccupied = false) {k : Nat}
    {s : Session} (hs : w.sessions[k]? = some s) : s.isLive = false := by
  cases hlive : s.isLive with
  | false => rfl
  | true =>
    have hcurrent := ((h.fits k s hs).live hlive).1
    have hclosed : s.state = .closed := by
      unfold World.isOccupied at hfree
      rw [hcurrent, Option.bind_some, hs] at hfree
      simpa using hfree
    have hdone := (h.fits k s hs).ended.mp hclosed
    simp [Session.isLive, hdone] at hlive

theorem openSession (h : Duty w) (hs : w.openSession = some v) : Duty v := by
  unfold World.openSession at hs
  rcases Option.ite_none_left_eq_some.mp hs with ⟨hguard, hs⟩
  simp only [Bool.or_eq_true, not_or, Bool.not_eq_true, ne_eq, decide_not, Bool.not_eq_true',
    decide_eq_false_iff_not, not_not] at hguard
  obtain ⟨⟨⟨hidle, _⟩, hfree⟩, _⟩ := hguard
  have hnone : ∀ (j : Nat) s, w.sessions[j]? = some s → s.isLive = false :=
    fun j s hj => h.not_isLive_of_not_isOccupied hfree hj
  rw [← Option.some.inj hs]
  constructor
  · intro k hk
    cases hk
    simp
  · intro k hk
    have hlt := h.current k hk
    simp only [List.length_append, List.length_cons, List.length_nil]
    omega
  · intro k s hk
    dsimp only at hk ⊢
    by_cases heq : k = w.sessions.length
    · rw [heq, List.getElem?_concat_length] at hk
      rw [← Option.some.inj hk, heq]
      have hcurrent : w.current ≠ some w.sessions.length := by
        intro hcurrent
        have hlt := h.current _ hcurrent
        omega
      apply Fits.opening
      · intro flags hflags
        cases hflags
      · intro flags hflags
        cases hflags
      · intro hdied
        cases hdied
      · constructor
        · intro hclosed
          cases hclosed
        · intro hdone
          cases hdone
      · intro hlive
        cases hlive
      · intro heq
        exact absurd heq hcurrent
      · exact ⟨rfl, rfl, rfl, hcurrent⟩
    · have hlt : k < w.sessions.length := by
        have hbound := (List.getElem?_eq_some_iff.mp hk).1
        rw [List.length_append, List.length_singleton] at hbound
        omega
      rw [List.getElem?_append_left hlt] at hk
      apply (h.fits k s hk).elsewhere
      · rw [hidle]
        intro htarget
        cases htarget
      · intro htarget
        exact heq (Option.some.inj htarget).symm
      · intro hlive
        rw [hnone k s hk] at hlive
        cases hlive

theorem opens (h : Duty w) {k : Nat} {a b : Stage} {f : Session → Session}
    (hw : w.operation = .opening k a) (hf : ∀ s, w.sessions[k]? = some s →
      Fits (.opening k a) w.current k s → Fits (.opening k b) w.current k (f s)) :
    Duty ((w.update k f).withOperation (.opening k b)) := by
  have hlt : k < w.sessions.length := h.target k (by rw [hw]; rfl)
  have hsession : w.sessions[k]? = some w.sessions[k] := List.getElem?_eq_getElem hlt
  apply h.moves hsession (t := f w.sessions[k])
  · exact length_update w k f
  · intro j
    dsimp only [World.withOperation]
    rw [getElem?_update]
    split
    · rename_i heq
      rw [← heq, hsession, Option.map_some]
    · rfl
  · rfl
  · intro j hj
    rw [hw] at hj
    exact (Option.some.inj hj).symm
  · intro j hj
    exact (Option.some.inj hj).symm
  · intro stage _
    exact ⟨a, hw⟩
  · have hfits := h.fits k _ hsession
    rw [hw] at hfits
    exact hf _ hsession hfits

theorem settles (h : Duty w) {k : Nat} {f : Session → Session}
    (hw : w.operation.target = some k) (hf : ∀ s, w.sessions[k]? = some s →
      Fits w.operation w.current k s → Fits .idle w.current k (f s)) :
    Duty ((w.update k f).withOperation .idle) := by
  have hlt : k < w.sessions.length := h.target k hw
  have hsession : w.sessions[k]? = some w.sessions[k] := List.getElem?_eq_getElem hlt
  apply h.moves hsession (t := f w.sessions[k])
  · exact length_update w k f
  · intro j
    dsimp only [World.withOperation]
    rw [getElem?_update]
    split
    · rename_i heq
      rw [← heq, hsession, Option.map_some]
    · rfl
  · rfl
  · intro j hj
    rw [hw] at hj
    exact (Option.some.inj hj).symm
  · intro j hj
    cases hj
  · intro stage heq
    cases heq
  · exact hf _ hsession (h.fits k _ hsession)

theorem publishes (h : Duty w) {k : Nat} (hw : w.operation = .opening k .starting) :
    Duty (({ w with current := some k } : World).withOperation (.opening k .running)) := by
  have hlt : k < w.sessions.length := h.target k (by rw [hw]; rfl)
  constructor
  · intro j hj
    cases hj
    exact hlt
  · intro j hj
    cases hj
    exact hlt
  · intro j s hj
    have hfits := h.fits j s hj
    rw [hw] at hfits
    dsimp only [World.withOperation]
    by_cases heq : k = j
    · rw [← heq] at hfits ⊢
      obtain ⟨hunstarted, hflags, _⟩ := hfits.stage _ rfl
      have hlive := isLive_of_unstarted hunstarted
      apply Fits.opening hfits.held hfits.down hfits.survives hfits.ended
      · intro hl
        rw [hlive] at hl
        cases hl
      · intro _ _
        exact Or.inr rfl
      · exact ⟨hunstarted, hflags, rfl⟩
    · have hlive : s.isLive = false := by
        cases hl : s.isLive with
        | false => rfl
        | true => exact absurd (hfits.alone hl k _ rfl) heq
      have helsewhere : Fits (.opening k .running) w.current j s := by
        apply hfits.elsewhere
        · intro htarget
          exact heq (Option.some.inj htarget)
        · intro htarget
          exact heq (Option.some.inj htarget)
        · intro hl
          rw [hlive] at hl
          cases hl
      exact {
        held := helsewhere.held
        down := helsewhere.down
        survives := helsewhere.survives
        ended := helsewhere.ended
        live := by
          intro hl
          rw [hlive] at hl
          cases hl
        alone := helsewhere.alone
        rests := helsewhere.rests
        placed := by
          intro hcurrent
          exact absurd (Option.some.inj hcurrent) heq
        stage := by
          intro stage hopening
          cases hopening
          exact absurd rfl heq
        finishing := helsewhere.finishing
        releasing := helsewhere.releasing }

theorem update_id (w : World) (k : Nat) : w.update k id = w := by
  unfold World.update
  rw [List.modify_id]

theorem restages (h : Duty w) {k : Nat} {a b : Stage} (hw : w.operation = .opening k a)
    (ha : a ≠ .running) (hf : ∀ s, w.sessions[k]? = some s → StageFits w.current k s a →
      StageFits w.current k s b) : Duty (w.withOperation (.opening k b)) := by
  rw [← update_id w k]
  apply h.opens hw
  intro s hs hfits
  exact hfits.restage ha (hf s hs (hfits.stage a rfl))

theorem openStep (h : Duty w) {raises : Bool} (hsafe : w.isSafe (.openStep raises) = true)
    (hs : w.openStep raises = some v) : Duty v := by
  unfold World.openStep at hs
  cases hop : w.operation with
  | opening k stage =>
    rw [hop] at hs
    cases stage with
    | checking =>
      cases raises with
      | true =>
        rw [← Option.some.inj hs]
        apply h.restages hop (by decide)
        intro s _ hstage
        obtain ⟨hflags, _, hunstarted, hcurrent⟩ := hstage
        exact ⟨fun flags hf => by simp [hflags] at hf, Or.inr ⟨hunstarted, hcurrent⟩⟩
      | false =>
        rw [← Option.some.inj hs]
        apply h.opens hop
        intro s _ hfits
        obtain ⟨hflags, hlease, hunstarted, hcurrent⟩ := hfits.stage _ rfl
        apply Fits.opening
        · intro flags hf
          exact absurd (hf.symm.trans hflags) (by simp)
        · intro flags hf
          exact absurd (hf.symm.trans hflags) (by simp)
        · exact hfits.survives
        · exact hfits.ended
        · exact hfits.live
        · intro heq
          exact absurd heq hcurrent
        · exact ⟨hflags, hlease, rfl, hunstarted, hcurrent⟩
    | creating =>
      cases raises with
      | true =>
        rw [← Option.some.inj hs]
        apply h.restages hop (by decide)
        intro s _ hstage
        obtain ⟨hflags, _, _, hunstarted, hcurrent⟩ := hstage
        exact ⟨fun flags hf => by simp [hflags] at hf, Or.inr ⟨hunstarted, hcurrent⟩⟩
      | false =>
        rw [← Option.some.inj hs]
        apply h.opens hop
        intro s _ hfits
        obtain ⟨_, hlease, hreservation, hunstarted, hcurrent⟩ := hfits.stage _ rfl
        apply Fits.opening
        · intro _ _ _
          exact ⟨hlease, hreservation⟩
        · intro flags hf hclosed
          cases hf
          cases hclosed
        · exact hfits.survives
        · exact hfits.ended
        · intro hlive
          have hnot := isLive_of_unstarted hunstarted
          exact absurd (hlive.symm.trans hnot) (by decide)
        · intro heq
          exact absurd heq hcurrent
        · exact ⟨hunstarted, rfl, hcurrent⟩
    | starting =>
      cases raises with
      | true =>
        rw [← Option.some.inj hs]
        apply h.restages hop (by decide)
        intro s _ hstage
        obtain ⟨hunstarted, hflags, hcurrent⟩ := hstage
        exact ⟨hflags, Or.inr ⟨hunstarted, hcurrent⟩⟩
      | false =>
        rw [← Option.some.inj hs]
        exact h.publishes hop
    | running =>
      cases raises with
      | true => simp [World.isSafe, hop] at hsafe
      | false =>
        rw [← Option.some.inj hs]
        apply h.opens hop
        intro s _ hfits
        obtain ⟨hunstarted, hflags, hcurrent⟩ := hfits.stage _ rfl
        apply Fits.opening
        · exact hfits.held
        · exact hfits.down
        · intro hdied
          cases hdied
        · constructor
          · intro hclosed
            have hdone := hfits.ended.mp hclosed
            rw [hunstarted] at hdone
            cases hdone
          · intro hdone
            cases hdone
        · intro _
          exact ⟨hcurrent, hflags⟩
        · intro _ _
          exact Or.inl rfl
        · rfl
    | watching =>
      cases raises with
      | true =>
        rw [← Option.some.inj hs]
        apply h.restages hop (by decide)
        intro s hk hstage
        have hfits := h.fits k s hk
        exact ⟨(hfits.live hstage).2, Or.inl hstage⟩
      | false =>
        rw [← Option.some.inj hs]
        apply h.settles (by rw [hop]; rfl)
        intro s hk hfits
        rw [hop] at hfits
        have hlive : s.isLive = true := hfits.stage _ rfl
        have hkeeps : Keeps s { s with watch := .watching } :=
          ⟨rfl, rfl, rfl, Or.inl rfl, Iff.rfl⟩
        apply hkeeps.fits
        apply Fits.settles hfits.held hfits.down hfits.survives hfits.ended hfits.live
        · intro hnot
          exact absurd (hlive.symm.trans hnot) (by decide)
        · intro _ _
          exact hlive
    | failing => cases hs
    | releasing => cases hs
  | _ =>
    rw [hop] at hs
    cases hs

end Duty

/-! ## Closing the client -/

structure Closes (s t : Session) : Prop where
  lease : t.lease = s.lease
  reservation : t.reservation = s.reservation
  waiter : t.waiter = s.waiter
  state : t.state = s.state
  flags : t.flags = s.flags.map fun _ => (true, true)

theorem closeClient_closes {s : Session} {raises : Bool}
    (hdown : ∀ flags, s.flags = some flags → flags.1 = true → flags.2 = true)
    (h : (!raises || !s.canRaise) = true) :
    (s.closeClient raises).2 = false ∧ Closes s (s.closeClient raises).1 := by
  unfold Session.closeClient
  unfold Session.canRaise at h
  unfold Session.flags at hdown
  cases hc : s.client with
  | none =>
    refine ⟨rfl, rfl, rfl, rfl, rfl, ?_⟩
    simp [Session.flags, hc]
  | some c =>
    rw [hc] at h hdown
    dsimp only at h ⊢
    cases hclosed : c.isClosed with
    | true =>
      have hisDown : c.isDown = true := hdown _ rfl hclosed
      refine ⟨rfl, rfl, rfl, rfl, rfl, ?_⟩
      simp [Session.flags, hc, hclosed, hisDown]
    | false =>
      rw [hclosed] at h
      cases raises with
      | true => cases h
      | false =>
        refine ⟨rfl, rfl, rfl, rfl, rfl, ?_⟩
        simp [Session.flags, hc]

namespace Closes

variable {s t : Session}

theorem isLive (h : Closes s t) : t.isLive = s.isLive := by
  unfold Session.isLive
  rw [h.waiter]

theorem isSome (h : Closes s t) : t.flags.isSome = s.flags.isSome := by
  rw [h.flags, Option.isSome_map]

theorem isDown (h : Closes s t) (flags : Bool × Bool) (hf : t.flags = some flags) :
    flags.2 = true := by
  rw [h.flags] at hf
  obtain ⟨_, _, heq⟩ := Option.map_eq_some_iff.mp hf
  rw [← heq]

theorem fits (h : Closes s t) {operation : Operation} {current : Option Nat} {k : Nat}
    (hs : Fits operation current k s)
    (hstage : ∀ stage, operation = .opening k stage → StageFits current k t stage) :
    Fits operation current k t where
  held := by
    intro flags hf hnot
    rw [h.isDown flags hf] at hnot
    cases hnot
  down := fun flags hf _ => h.isDown flags hf
  survives := by
    rw [h.waiter]
    exact hs.survives
  ended := by
    rw [h.state, h.waiter]
    exact hs.ended
  live := by
    rw [h.isLive, h.isSome]
    exact hs.live
  alone := by
    rw [h.isLive]
    exact hs.alone
  rests := by
    rw [h.isLive, h.lease, h.reservation]
    exact hs.rests
  placed := by
    rw [h.isLive, h.state]
    exact hs.placed
  stage := hstage
  finishing := by
    rw [h.waiter]
    exact hs.finishing
  releasing := fun _ flags hf => h.isDown flags hf

end Closes

namespace Duty

variable {w v : World}

theorem canClose_of_isSafe {raises : Bool} {k : Nat} {s : Session}
    (hsafe : w.isSafe (.clientClose raises) = true) (hw : w.operation.closes = some k)
    (hs : w.sessions[k]? = some s) : (!raises || !s.canRaise) = true := by
  unfold World.isSafe at hsafe
  rw [hw, Option.bind_some, hs] at hsafe
  exact hsafe

theorem not_failed {raises : Bool} {k : Nat} (h : Duty w)
    (hsafe : w.isSafe (.clientClose raises) = true) (hw : w.operation.closes = some k) :
    ¬(w.sessions[k]?.map fun s => (s.closeClient raises).2).getD false = true := by
  cases hs : w.sessions[k]? with
  | none => exact Bool.false_ne_true
  | some s =>
    have hcan := canClose_of_isSafe hsafe hw hs
    simp [(closeClient_closes (h.fits k s hs).down hcan).1]

section

variable (h : Duty w)

include h

theorem clientClose {raises : Bool}
    (hsafe : w.isSafe (.clientClose raises) = true) (hs : w.clientClose raises = some v) :
    Duty v := by
  unfold World.clientClose at hs
  cases hop : w.operation with
  | opening k stage =>
    rw [hop] at hs
    cases stage with
    | failing =>
      have hcloses : w.operation.closes = some k := by rw [hop]; rfl
      dsimp only at hs
      rw [if_neg (not_failed h hsafe hcloses)] at hs
      rw [← Option.some.inj hs]
      apply h.opens hop
      intro s hk hfits
      have hcan := canClose_of_isSafe hsafe hcloses hk
      have hclosed := (closeClient_closes hfits.down hcan).2
      obtain ⟨hflags, hcases⟩ := hfits.stage _ rfl
      have hfailing : Fits (.opening k .failing) w.current k (s.closeClient raises).1 := by
        apply hclosed.fits hfits
        intro stage heq
        cases heq
        refine ⟨hclosed.isSome.trans hflags, ?_⟩
        rw [hclosed.isLive, hclosed.waiter]
        exact hcases
      apply hfailing.restage (by decide)
      refine ⟨fun flags hf => hclosed.isDown flags hf, ?_⟩
      rw [hclosed.isLive, hclosed.waiter]
      exact hcases
    | _ => cases hs
  | stopping k =>
    rw [hop] at hs
    have hcloses : w.operation.closes = some k := by rw [hop]; rfl
    rw [← Option.some.inj hs]
    apply h.settles (by rw [hop]; rfl)
    intro s hk hfits
    rw [hop] at hfits
    have hcan := canClose_of_isSafe hsafe hcloses hk
    have hclosed := (closeClient_closes hfits.down hcan).2
    exact hclosed.fits (hfits.plain rfl rfl) fun stage heq => by cases heq
  | finishing k =>
    rw [hop] at hs
    have hcloses : w.operation.closes = some k := by rw [hop]; rfl
    dsimp only at hs
    rw [if_neg (not_failed h hsafe hcloses)] at hs
    rw [← Option.some.inj hs]
    have hlt : k < w.sessions.length := h.target k (by rw [hop]; rfl)
    have hk : w.sessions[k]? = some w.sessions[k] := List.getElem?_eq_getElem hlt
    have hfits := h.fits k _ hk
    rw [hop] at hfits
    have hcan := canClose_of_isSafe hsafe hcloses hk
    have hclosed := (closeClient_closes hfits.down hcan).2
    have hfinishing : Fits (.finishing k) w.current k (w.sessions[k].closeClient raises).1 :=
      hclosed.fits hfits fun stage heq => by cases heq
    apply h.moves hk (t := (w.sessions[k].closeClient raises).1)
    · exact length_update w k _
    · intro j
      dsimp only [World.withOperation]
      rw [getElem?_update]
      split
      · rename_i heq
        rw [← heq, hk, Option.map_some]
      · rfl
    · rfl
    · intro j hj
      rw [hop] at hj
      exact (Option.some.inj hj).symm
    · intro j hj
      exact (Option.some.inj hj).symm
    · intro stage heq
      cases heq
    · exact {
        held := hfinishing.held
        down := hfinishing.down
        survives := hfinishing.survives
        ended := hfinishing.ended
        live := hfinishing.live
        alone := by
          intro _ j stage heq
          cases heq
        rests := by
          intro hlive _
          apply hfinishing.rests hlive
          intro stage heq
          cases heq
        placed := by
          intro hcurrent hstate
          cases hfinishing.placed hcurrent hstate with
          | inl hlive => exact Or.inl hlive
          | inr heq => cases heq
        stage := by
          intro stage heq
          cases heq
        finishing := fun _ => hfinishing.finishing (Or.inl rfl)
        releasing := fun _ flags hf => hclosed.isDown flags hf }
  | _ =>
    rw [hop] at hs
    cases hs

/-- What is released was held by a session whose client is down. -/
theorem release (hs : w.release = some v) : Duty v := by
  unfold World.release at hs
  cases hop : w.operation with
  | opening k stage =>
    rw [hop] at hs
    cases stage with
    | releasing =>
      rw [← Option.some.inj hs]
      apply h.settles (by rw [hop]; rfl)
      intro s _ hfits
      rw [hop] at hfits
      obtain ⟨hdown, hcases⟩ := hfits.stage _ rfl
      apply Fits.settles
      · intro flags hf hnot
        rw [hdown flags hf] at hnot
        cases hnot
      · exact hfits.down
      · exact hfits.survives
      · exact hfits.ended
      · exact hfits.live
      · intro _
        exact ⟨rfl, rfl⟩
      · intro hcurrent _
        cases hcases with
        | inl hlive => exact hlive
        | inr hunplaced => exact absurd hcurrent hunplaced.2
    | _ => cases hs
  | releasing k =>
    rw [hop] at hs
    rw [← Option.some.inj hs]
    apply h.settles (by rw [hop]; rfl)
    intro s _ hfits
    rw [hop] at hfits
    apply Fits.settles
    · intro flags hf hnot
      rw [hfits.releasing rfl flags hf] at hnot
      cases hnot
    · exact hfits.down
    · intro hdied
      cases hdied
    · constructor
      · intro _
        rfl
      · intro _
        rfl
    · intro hlive
      cases hlive
    · intro _
      exact ⟨rfl, rfl⟩
    · intro _ hstate
      exact absurd rfl hstate
  | _ =>
    rw [hop] at hs
    cases hs

/-- The thread that waited for the command has the lock. -/
theorem finish {k : Nat} (hs : w.finish k = some v) : Duty v := by
  unfold World.finish at hs
  cases hk : w.sessions[k]? with
  | none =>
    rw [hk] at hs
    cases hs
  | some s =>
    rw [hk] at hs
    dsimp only at hs
    rcases Option.ite_none_left_eq_some.mp hs with ⟨hguard, hs⟩
    simp only [Bool.or_eq_true, not_or, ne_eq, decide_not, Bool.not_eq_true',
      decide_eq_false_iff_not, not_not] at hguard
    obtain ⟨hidle, hended⟩ := hguard
    rw [← Option.some.inj hs]
    have hfits := h.fits k s hk
    rw [hidle] at hfits
    have hlive : s.isLive = true := by simp [Session.isLive, hended]
    apply h.moves hk (t := s)
    · rfl
    · intro j
      split
      · rename_i heq
        rw [← heq]
        exact hk
      · rfl
    · rfl
    · intro j hj
      rw [hidle] at hj
      cases hj
    · intro j hj
      exact (Option.some.inj hj).symm
    · intro stage heq
      cases heq
    · exact {
        held := hfits.held
        down := hfits.down
        survives := hfits.survives
        ended := hfits.ended
        live := hfits.live
        alone := by
          intro _ j stage heq
          cases heq
        rests := by
          intro hnot
          exact absurd (hlive.symm.trans hnot) (by decide)
        placed := fun _ _ => Or.inl hlive
        stage := by
          intro stage heq
          cases heq
        finishing := fun _ => hended
        releasing := by
          intro heq
          cases heq }

/-! ## Every step -/

theorem stopFreely {k : Nat} {message : Message}
    (hs : w.stopFreely k message = some v) : Duty v := by
  unfold World.stopFreely at hs
  rcases Runs.enabled hs with ⟨hidle, hs⟩
  rw [← Option.some.inj hs]
  apply h.stop
  rw [hidle]
  rfl

theorem asyncStop {k index : Nat} (hs : w.asyncStop k index = some v) : Duty v := by
  unfold World.asyncStop at hs
  split at hs
  · cases hs
  split at hs
  · cases hs
  apply Duty.stopFreely _ hs
  apply h.touches
  intro _ _
  exact ⟨rfl, rfl, rfl, Or.inl rfl, Iff.rfl⟩

theorem watchStops {k : Nat} (hs : w.watchStops k = some v) : Duty v := by
  unfold World.watchStops at hs
  split at hs
  · cases hs
  split at hs
  · apply Duty.stopFreely _ hs
    apply h.touches
    intro _ _
    exact ⟨rfl, rfl, rfl, Or.inl rfl, Iff.rfl⟩
  · cases hs

theorem shutdown (hs : w.shutdown = some v) : Duty v := by
  unfold World.shutdown at hs
  have hclosed : Duty { w with closed := true } :=
    h.keeps rfl rfl (fun _ t ht => ⟨t, ht, Keeps.refl t⟩) (Or.inl rfl)
  split at hs
  · cases hs
  rename_i hidle
  rw [ne_eq, not_not] at hidle
  split at hs
  · rw [← Option.some.inj hs]
    exact hclosed
  rw [← Option.some.inj hs]
  apply hclosed.stop
  dsimp only
  rw [hidle]
  rfl

theorem write {k sequence : Nat} (hs : w.write k sequence = some v) : Duty v := by
  unfold World.write at hs
  cases hk : w.sessions[k]? with
  | none =>
    rw [hk] at hs
    cases hs
  | some s =>
    rw [hk] at hs
    dsimp only at hs
    split at hs
    · cases hs
    rename_i hguard
    simp only [Bool.or_eq_true, not_or, ne_eq, decide_not, Bool.not_eq_true',
      decide_eq_false_iff_not, not_not] at hguard
    have hidle := hguard.1.1.1
    rw [← Option.some.inj hs]
    apply h.turns (by rw [hidle]; rfl) rfl
    intro j hj
    cases hj
    exact (List.getElem?_eq_some_iff.mp hk).1

theorem resize {k : Nat} (hs : w.resize k = some v) : Duty v := by
  unfold World.resize at hs
  cases hk : w.sessions[k]? with
  | none =>
    rw [hk] at hs
    cases hs
  | some s =>
    rw [hk] at hs
    dsimp only at hs
    split at hs
    · cases hs
    rename_i hguard
    simp only [Bool.or_eq_true, not_or, ne_eq, decide_not, Bool.not_eq_true',
      decide_eq_false_iff_not, not_not] at hguard
    have hidle := hguard.1.1
    rw [← Option.some.inj hs]
    apply h.turns (by rw [hidle]; rfl) rfl
    intro j hj
    cases hj
    exact (List.getElem?_eq_some_iff.mp hk).1

theorem writeChecked {editable : Bool} (hs : w.writeChecked editable = some v) :
    Duty v := by
  unfold World.writeChecked at hs
  cases hop : w.operation with
  | writing k sequence =>
    rw [hop] at hs
    have hplain : w.operation.isPlain = true := by rw [hop]; rfl
    have hidle : Duty (w.withOperation .idle) := h.turns hplain rfl fun j hj => by cases hj
    have hlt : k < w.sessions.length := h.target k (by rw [hop]; rfl)
    dsimp only at hs
    split at hs
    · rw [← Option.some.inj hs]
      exact h.stop hplain k _
    split at hs
    · cases hs
    split at hs
    · rw [← Option.some.inj hs]
      exact hidle
    split at hs
    · rw [← Option.some.inj hs]
      exact hidle
    rw [← Option.some.inj hs]
    have htouched : Duty (w.update k fun s => { s with inputSequence := sequence }) :=
      h.touches fun _ _ => ⟨rfl, rfl, rfl, Or.inl rfl, Iff.rfl⟩
    apply htouched.turns hplain rfl
    intro j hj
    cases hj
    rw [length_update]
    exact hlt
  | _ =>
    rw [hop] at hs
    cases hs

theorem writeReturns {delivered raises : Bool}
    (hs : w.writeReturns delivered raises = some v) : Duty v := by
  unfold World.writeReturns at hs
  cases hop : w.operation with
  | sending k sequence =>
    rw [hop] at hs
    have hplain : w.operation.isPlain = true := by rw [hop]; rfl
    have hsent : ∀ f : Session → Session, (∀ s, Keeps s (f s)) →
        Duty ((w.update k f).stop k .unconfirmed) ∧
          Duty ((w.update k f).withOperation .idle) := by
      intro f hf
      have htouched : Duty (w.update k f) := h.touches fun s _ => hf s
      have hstill : (w.update k f).operation.isPlain = true := hplain
      exact ⟨htouched.stop hstill k _, htouched.turns hstill rfl fun j hj => by cases hj⟩
    have hinput := hsent (fun s => { s with inputs := s.inputs ++ [sequence] })
      fun _ => ⟨rfl, rfl, rfl, Or.inl rfl, Iff.rfl⟩
    have hlost := hsent id fun s => Keeps.refl s
    rw [update_id] at hlost
    cases delivered with
    | true =>
      cases raises with
      | true =>
        rw [← Option.some.inj hs]
        exact hinput.1
      | false =>
        rw [← Option.some.inj hs]
        exact hinput.2
    | false =>
      cases raises with
      | true =>
        rw [← Option.some.inj hs]
        exact hlost.1
      | false => cases hs
  | _ =>
    rw [hop] at hs
    cases hs

end

theorem next {maximumBytes : Nat} {label : Label} (h : Duty w)
    (hsafe : w.isSafe label = true) (hs : w.next maximumBytes label = some v) : Duty v := by
  cases label with
  | «open» => exact h.openSession hs
  | openStep raises => exact h.openStep hsafe hs
  | clientClose raises => exact h.clientClose hsafe hs
  | release => exact h.release hs
  | commandEnds k result =>
    apply h.onSession _ hs
    intro s t ht
    rcases Runs.enabled ht with ⟨hwaits, ht⟩
    rw [← Option.some.inj ht]
    exact keeps_commandEnds s result hwaits
  | finish k => exact h.finish hs
  | receive k n => exact h.onClient (fun s c t hc ht => keeps_receives hc ht) hs
  | dequeue k => exact h.onClient (fun s c t hc ht => keeps_dequeues hc ht) hs
  | callback k starts => exact h.onClient (fun s c t hc ht => keeps_runCallback hc ht) hs
  | discard k =>
    apply h.onClient _ hs
    intro s c t hc ht
    rw [← Option.some.inj ht]
    exact keeps_client hc rfl rfl
  | asyncStop k index => exact h.asyncStop hs
  | watch k reason => exact h.onSession (fun s t ht => keeps_watches ht) hs
  | watchStops k => exact h.watchStops hs
  | closeSession k =>
    dsimp only [World.next] at hs
    split at hs
    · exact h.stopFreely hs
    · cases hs
  | shutdown => exact h.shutdown hs
  | write k sequence => exact h.write hs
  | writeChecked editable => exact h.writeChecked hs
  | writeReturns delivered raises => exact h.writeReturns hs
  | resize k => exact h.resize hs
  | resizeReturns =>
    dsimp only [World.next] at hs
    cases hop : w.operation with
    | resizing k =>
      rw [hop] at hs
      rw [← Option.some.inj hs]
      exact h.turns (by rw [hop]; rfl) rfl fun j hj => by cases hj
    | _ =>
      rw [hop] at hs
      cases hs
  | read k =>
    dsimp only [World.next] at hs
    split at hs
    · apply h.onSession _ hs
      intro s t ht
      rw [← Option.some.inj ht]
      exact keeps_readsOn s
    · cases hs

end Duty

end CodexBridge.Terminal
