import CodexBridge.HaMcp.Grant

/-! # Runs of the shortcut

Each step of an operation, of Home Assistant and of the App keeps the invariant, and from it
what holds in whole runs.
-/

namespace CodexBridge.HaMcp

namespace World

variable {w t : World} {m : Memory} {r : Record}

/-! ## Waits of an operation -/

section

variable (h : w.Inv) (hm : w.memory = some m) (hl : m.loaded = true)

include h hm hl

theorem Inv.write (hr : m.record = some r) (o : Outcome) :
    (w.write (some r) o).Base ∧ (w.write (some r) o).memory = some m ∧
      (w.write (some r) o).tokens = w.tokens ∧
        (o = .done → (w.write (some r) o).saved = some r) := by
  refine ⟨h.base.write hm hl hr o, ?_, ?_, ?_⟩
  · unfold World.write
    split <;> exact hm
  · unfold World.write
    split <;> rfl
  · intro ho
    rw [ho]
    rfl

theorem Inv.saved (hr : m.record = some r) (o : Outcome) {r' : Record} {op : Operation}
    (hnames : ∀ x ∈ w.tokens, r.Names x → r'.Names x)
    (hholds : ∀ name id, r.Holds name id → r'.Holds name id) (hsound : r'.Sound)
    (hwaits : ∀ u : World, u.tokens = w.tokens → u.saved = some r → u.Waits (some r') op) :
    (if o = .done then (w.write (some r) o).enter (some r') op
      else (w.write (some r) o).disconnectLocked (some r)).Inv := by
  obtain ⟨hb, hm', ht, hs⟩ := h.write hm hl hr o
  split
  · rename_i ho
    refine Inv.of_enter (hb.enter hm' hl hr op ?_ hholds hsound) (hwaits _ ht (hs ho))
    intro x hx
    rw [ht] at hx
    exact hnames x hx
  · exact hb.fails hm' hl hr

theorem Inv.savedLast (hr : m.record = some r) (o : Outcome) :
    (if o = .done then (w.write (some r) o).leave (some r)
      else (w.write (some r) o).disconnectLocked (some r)).Inv := by
  obtain ⟨hb, hm', _⟩ := h.write hm hl hr o
  split
  · exact Inv.of_leave (hb.leave hm' hl hr) (fun hn => by cases hn)
  · exact hb.fails hm' hl hr

theorem Inv.emptied' (hr : m.record = none) (hsound : r.Sound) (smooth : Bool) (o : Outcome)
    (hcareful : o ≠ .cancelled false) :
    (match o with
      | .done => (w.write none o).finish none smooth
      | .failed _ => (w.write none o).finish (some r) false
      | .cancelled _ => (w.write none o).leave none).Inv := by
  obtain ⟨htokens, hservers⟩ := h.base.nothing hm hl hr
  have hclear : ∀ record : Option Record, (∀ x, record = some x → x.Sound) →
      ((w.write none o).leave record).Base := by
    intro record hrecord
    unfold World.write
    split
    · refine h.base.clear htokens rfl hservers rfl (fun x hx => by cases hx) ?_
      intro m' x hm' hx
      cases hm'
      exact hrecord x hx
    · refine h.base.clear htokens rfl hservers rfl h.base.journal ?_
      intro m' x hm' hx
      cases hm'
      exact hrecord x hx
  have htokens' : (w.write none o).tokens = [] := by
    unfold World.write
    split <;> exact htokens
  have hnone := hclear none (fun x hx => by cases hx)
  cases o with
  | done => exact Inv.of_finish hnone htokens' (fun _ => rfl) (fun _ => rfl)
  | failed effective =>
    refine Inv.of_finish (hclear (some r) ?_) htokens' (fun hn => by cases hn)
      (fun hs => by cases hs)
    intro x hx
    cases hx
    exact hsound
  | cancelled effective =>
    cases effective with
    | true => exact Inv.of_leave hnone fun _ => rfl
    | false => exact absurd rfl hcareful

end

theorem preparing_sound (ownerId name : String) : (Record.preparing ownerId name).Sound where
  parses := rfl
  current c hc := by cases hc
  pending c hc := by cases hc

variable {o : Outcome}

section

variable (h : w.Inv)

include h

theorem Inv.save {now : Nat}
    (hcareful : w.Careful (.save o now) = true) (hs : w.save o now = some t) : t.Inv := by
  unfold World.save at hs
  split at hs
  · rename_i record operation hm
    have hwaits := (h.staged _ hm).waits operation rfl
    have hmsound := fun r => h.base.memory _ r hm
    dsimp only at hs
    split at hs
    · rename_i r
      cases hs
      obtain ⟨htokens, o', n, hrec⟩ := hwaits
      refine h.saved hm rfl rfl o (fun _ _ hn => hn) (fun _ _ hh => hh)
        (hmsound r rfl) ?_
      intro u hut hus
      exact ⟨hut.trans htokens, hus, o', n, hrec⟩
    · rename_i r
      cases hs
      obtain ⟨x, hx, hid⟩ := hwaits
      cases hx
      have hsound := hmsound r rfl
      obtain ⟨id, hid'⟩ := Option.isSome_iff_exists.mp hid
      refine h.saved hm rfl rfl o (fun _ _ hn => hn) ?_ ?_ ?_
      · intro name id'' hh
        refine ⟨hh.1, hh.2.1, ?_⟩
        dsimp only
        rw [hid']
        exact Option.some_ne_none _
      · refine ⟨rfl, ?_, hsound.pending⟩
        intro c hc
        dsimp only at hc
        rw [hid'] at hc
        cases hc
        exact ⟨id, now, hid', rfl⟩
      · intro u _ _
        refine ⟨_, rfl, ?_⟩
        dsimp only
        rw [hid']
        rfl
    · rename_i r
      cases hs
      obtain ⟨x, hx, hfp⟩ := hwaits
      cases hx
      refine h.saved hm rfl rfl o (fun _ _ hn => hn) (fun _ _ hh => hh)
        (hmsound r rfl) ?_
      intro u _ hus
      exact ⟨hus, r, rfl, hfp⟩
    · cases hs
      exact h.savedLast hm rfl rfl o
    · cases hs
      exact h.savedLast hm rfl rfl o
    · rename_i r
      cases hs
      obtain ⟨x, hx, hfp⟩ := hwaits
      cases hx
      refine h.saved hm rfl rfl o (fun _ _ hn => hn) (fun _ _ hh => hh)
        (hmsound r rfl) ?_
      intro u _ _
      exact ⟨r, rfl, hfp⟩
    · rename_i r
      cases hs
      obtain ⟨hb, hm', _⟩ := h.write hm rfl rfl o
      exact Inv.of_leave (hb.leave hm' rfl rfl) (fun hn => by cases hn)
    · rename_i r
      cases hs
      obtain ⟨hb, hm', ht, _⟩ := h.write hm rfl rfl o
      have htokens := ht.trans hwaits.1
      have hsound := hmsound r rfl
      cases o with
      | done =>
        refine Inv.of_enter (hb.enter hm' rfl rfl _ (fun _ _ hn => hn) (fun _ _ hh => hh)
          hsound) ⟨htokens, ⟨r, rfl⟩, fun hp => by cases hp⟩
      | failed effective =>
        refine Inv.of_enter (hb.enter hm' rfl rfl _ (fun _ _ hn => hn) (fun _ _ hh => hh)
          hsound) ⟨htokens, ⟨r, rfl⟩, fun _ => rfl⟩
      | cancelled effective =>
        exact Inv.of_leave (hb.leave hm' rfl rfl) (fun hn => by cases hn)
    · rename_i r smooth
      cases hs
      refine h.emptied' hm rfl rfl hwaits.2 smooth o ?_
      intro ho
      unfold Careful at hcareful
      rw [ho, hm] at hcareful
      cases hcareful
    · cases hs
  · cases hs

theorem Inv.create {id : String} (hs : w.create o id = some t) :
    t.Inv := by
  unfold World.create at hs
  split at hs
  · rename_i r hm
    obtain ⟨htokens, hsaved, owner, name, hr⟩ := (h.staged _ hm).waits _ rfl
    cases hr
    have hsound := preparing_sound owner name
    have hnames : ∀ x ∈ (if o.effective then ({ w with tokens :=
        ⟨id, owner, tokenName name⟩ :: w.tokens } : World) else w).tokens,
          x = ⟨id, owner, tokenName name⟩ := by
      intro x hx
      split at hx
      · rw [htokens] at hx
        exact List.mem_singleton.mp hx
      · rw [htokens] at hx
        cases hx
    have hmatches : (Record.preparing owner name).matchesToken
        ⟨id, owner, tokenName name⟩ = true := by
      unfold Record.matchesToken Record.preparing
      rw [Bool.and_eq_true, decide_eq_true_eq, decide_eq_true_eq]
      exact ⟨rfl, rfl⟩
    have hb : (if o.effective then ({ w with tokens :=
        ⟨id, owner, tokenName name⟩ :: w.tokens } : World) else w).Base := by
      split
      · refine ⟨?_, ?_, ?_, h.base.calls, h.base.journal, h.base.memory⟩
        · show (_ :: w.tokens).length ≤ 1
          rw [htokens]
          exact Nat.le_refl 1
        · intro x hx
          have hxe : x = ⟨id, owner, tokenName name⟩ := by
            replace hx : x ∈ _ :: w.tokens := hx
            rw [htokens] at hx
            exact List.mem_singleton.mp hx
          rw [hxe]
          refine ⟨⟨_, hsaved, hmatches, Or.inl rfl⟩, ?_⟩
          intro m' hm' _
          replace hm' : w.memory = some m' := hm'
          rw [hm] at hm'
          cases hm'
          exact ⟨_, rfl, hmatches, Or.inl rfl⟩
        · intro n s id' now hs' hb'
          exact ⟨(h.base.servers n s id' now hs' hb').saved,
            (h.base.servers n s id' now hs' hb').read⟩
      · exact h.base
    have hm' : (if o.effective then ({ w with tokens :=
        ⟨id, owner, tokenName name⟩ :: w.tokens } : World) else w).memory = some
          ⟨some (.preparing owner name), true, some .creatingToken⟩ := by
      split <;> exact hm
    dsimp only at hs
    replace hs := Option.some.inj hs
    rw [← hs]
    split
    · refine Inv.of_enter (hb.enter hm' rfl rfl _ ?_ ?_ ⟨rfl, ?_, ?_⟩) ⟨_, rfl, rfl⟩
      · intro x hx hn
        rw [hnames x hx]
        exact ⟨hmatches, Or.inr rfl⟩
      · intro n id' hh
        cases hh.2.1
      · intro c hc
        cases hc
      · intro c hc
        cases hc
    · exact hb.fails hm' rfl rfl
  · cases hs

/-- The grant of a request that the operation sends is known. -/
theorem Inv.led_add (hm : w.memory = some m) (hr : m.record = some r)
    (hsaved : w.saved = some r) {token : Credential} (ht : r.fingerprint = some token) :
    Call.Issued (.add r.serverName token) ∧ w.Led (.add r.serverName token) := by
  obtain ⟨id, now, hid, htoken⟩ := (h.base.memory m r hm hr).current token ht
  refine ⟨⟨id, now, htoken⟩, ?_⟩
  intro name id' now' hcall
  rw [htoken] at hcall
  cases hcall
  have hholds : r.Holds r.serverName id := by
    refine ⟨rfl, hid, ?_⟩
    rw [ht]
    exact Option.some_ne_none token
  refine ⟨⟨r, hsaved, hholds⟩, ?_⟩
  intro m' hm' _
  rw [hm] at hm'
  cases hm'
  exact ⟨r, hr, hholds⟩

theorem Inv.issued_replace (hm : w.memory = some m) (hr : m.record = some r)
    {expected token : Credential} (he : r.fingerprint = some expected)
    (ht : r.pendingFingerprint = some token) :
    Call.Issued (.replace r.serverName expected token) ∧
      w.Led (.replace r.serverName expected token) := by
  have hsound := h.base.memory m r hm hr
  obtain ⟨id, before, hid, hexpected⟩ := hsound.current expected he
  obtain ⟨id', now, hid', htoken⟩ := hsound.pending token ht
  have hsame : id' = id := Option.some.inj (hid'.symm.trans hid)
  rw [hsame] at htoken
  refine ⟨⟨id, before, now, hexpected, htoken⟩, ?_⟩
  intro name id'' now' hcall
  cases hcall

theorem Inv.requested {reply : Reply} (hcareful : w.Careful (.request reply) = true)
    (hrefusal : ∀ p effective, reply = .refused p effective → refusal p = true)
    (hs : w.requested reply = some t) : t.Inv := by
  unfold World.requested at hs
  split at hs
  · rename_i r hm
    obtain ⟨hsaved, _⟩ := (h.staged _ hm).waits _ rfl
    split at hs
    · rename_i token ht
      obtain ⟨hissued, hled⟩ := h.led_add hm rfl hsaved ht
      have hb := h.base.request hissued hled reply
      have hm' := (onlyApp_request w (.add r.serverName token) reply).memory.trans hm
      dsimp only at hs
      replace hs := Option.some.inj hs
      rw [← hs]
      split
      · refine Inv.of_enter (hb.enter hm' rfl rfl _ (fun _ _ hn => hn) (fun _ _ hh => hh)
          (h.base.memory _ r hm rfl)) ⟨r, rfl, ?_⟩
        rw [ht]
        rfl
      · exact hb.fails hm' rfl rfl
    · cases hs
  · rename_i r hm
    split at hs
    · rename_i expected token he ht
      have hsound := h.base.memory _ r hm rfl
      obtain ⟨hissued, hled⟩ := h.issued_replace hm rfl he ht
      have hb := h.base.request hissued hled reply
      have hm' := (onlyApp_request w (.replace r.serverName expected token) reply).memory.trans hm
      obtain ⟨id, before, hid, _⟩ := hsound.current expected he
      dsimp only at hs
      replace hs := Option.some.inj hs
      rw [← hs]
      split
      · refine Inv.of_enter (hb.enter hm' rfl rfl _ (fun _ _ hn => hn) ?_ ⟨?_, ?_, ?_⟩)
          ⟨_, rfl, rfl⟩
        · intro name id' hh
          exact ⟨hh.1, hh.2.1, Option.some_ne_none token⟩
        · unfold Record.parses
          simp [hid]
        · intro c hc
          cases hc
          exact hsound.pending token ht
        · intro c hc
          cases hc
      · split
        · refine Inv.of_enter (hb.enter hm' rfl rfl _ (fun _ _ hn => hn) (fun _ _ hh => hh)
            ⟨?_, hsound.current, ?_⟩) ⟨_, rfl, ?_⟩
          · unfold Record.parses
            simp [hid, he]
          · intro c hc
            cases hc
          · show r.fingerprint.isSome = true
            rw [he]
            rfl
        · exact hb.fails hm' rfl rfl
      · exact hb.fails hm' rfl rfl
    · cases hs
  · rename_i r c rest pending smooth hm
    obtain ⟨htokens, ⟨x, hx, hdigests⟩, hps⟩ := (h.staged _ hm).waits _ rfl
    cases hx
    cases hs
    refine h.base.removed hm rfl rfl htokens (hdigests c (List.mem_cons_self ..)) hps
      hrefusal ?_
    intro hsm hans
    unfold Careful at hcareful
    rw [hans, hm, hsm] at hcareful
    exact hcareful
  · cases hs

theorem Inv.selected {supported : Bool} (hs : w.selected o supported = some t) : t.Inv := by
  unfold World.selected at hs
  split at hs
  · rename_i r hm
    obtain ⟨x, hx, hfp⟩ := (h.staged _ hm).waits _ rfl
    cases hx
    have hsound := h.base.memory _ r hm rfl
    obtain ⟨c, hc⟩ := Option.isSome_iff_exists.mp hfp
    obtain ⟨id, now, hid, _⟩ := hsound.current c hc
    cases hs
    split
    · refine Inv.of_enter (h.base.enter hm rfl rfl _ (fun _ _ hn => hn) (fun _ _ hh => hh)
        ⟨?_, hsound.current, hsound.pending⟩) ⟨_, rfl, hfp⟩
      unfold Record.parses
      simp [hid, hc]
    · exact h.base.fails hm rfl rfl
  · rename_i r pending smooth hm
    obtain ⟨htokens, _, hps⟩ := (h.staged _ hm).waits _ rfl
    cases hs
    split
    · exact h.base.deselected hm rfl rfl htokens hps supported
    · exact h.base.deselected hm rfl rfl htokens (fun _ => rfl) supported
    · exact Inv.of_leave (h.base.leave hm rfl rfl) (fun hn => by cases hn)
  · cases hs

theorem Inv.findOwner (hs : w.findOwner o = some t) : t.Inv := by
  unfold World.findOwner at hs
  split at hs
  · rename_i r hm
    cases hs
    exact h.base.ownerFound hm rfl rfl o
  · cases hs

end

variable {record : Option Record}

theorem idle_eq_some (h : w.idle = some record) :
    w.memory = some ⟨record, true, none⟩ := by
  unfold idle at h
  split at h
  · rename_i hm
    cases h
    exact hm
  · cases h

section

variable (h : w.Inv)

include h

theorem Inv.leave (hm : w.memory = some ⟨record, true, none⟩) : (w.leave record).Inv := by
  cases record with
  | none =>
    obtain ⟨htokens, hservers⟩ := h.base.nothing hm rfl rfl
    refine Inv.of_leave (h.base.clear htokens rfl hservers rfl h.base.journal ?_)
      fun _ => (h.staged _ hm).idle rfl rfl rfl
    intro m' x hm' hx
    cases hm'
    cases hx
  | some r => exact Inv.of_leave (h.base.leave hm rfl rfl) (fun hn => by cases hn)

theorem Inv.disconnects (hm : w.memory = some ⟨record, true, none⟩) :
    (w.disconnectLocked record).Inv :=
  h.base.disconnectLocked hm rfl fun hr => (h.staged _ hm).idle rfl rfl hr

theorem Inv.status {checks : Checks} {listing : Listing}
    (hs : w.status checks listing = some t) : t.Inv := by
  unfold World.status at hs
  obtain ⟨record, hidle, hs⟩ := Option.map_eq_some_iff.mp hs
  have hm := idle_eq_some hidle
  rw [← hs]
  split
  · exact h.leave hm
  split
  · exact h.leave hm
  split
  · exact h.disconnects hm
  split
  · exact h.leave hm
  split
  · exact h.disconnects hm
  split
  · exact h.disconnects hm
  · exact h.leave hm

theorem Inv.connect {allowed : Bool} {ownerId name : String}
    (hs : w.connect allowed ownerId name = some t) : t.Inv := by
  unfold World.connect at hs
  obtain ⟨record, hidle, hs⟩ := Option.map_eq_some_iff.mp hs
  have hm := idle_eq_some hidle
  rw [← hs]
  split
  · split
    · obtain ⟨htokens, hservers⟩ := h.base.nothing hm rfl rfl
      refine Inv.of_enter (h.base.clear htokens rfl hservers rfl h.base.journal ?_)
        ⟨htokens, ownerId, name, rfl⟩
      intro m' x hm' hx
      cases hm'
      cases hx
      exact preparing_sound ownerId name
    · exact h.leave hm
  · exact h.leave hm

theorem Inv.refresh {checks : Checks} {now : Nat} (hs : w.refresh checks now = some t) : t.Inv := by
  unfold World.refresh at hs
  obtain ⟨record, hidle, hs⟩ := Option.map_eq_some_iff.mp hs
  have hm := idle_eq_some hidle
  rw [← hs]
  split
  · exact h.leave hm
  rename_i r
  split
  · exact h.disconnects hm
  rename_i hstate
  dsimp only
  split
  · exact h.leave hm
  split
  · exact h.disconnects hm
  have hsound := h.base.memory _ r hm rfl
  have hconnected : r.state = .connected := by simpa using hstate
  have hparses := hsound.parses
  unfold Record.parses at hparses
  rw [hconnected] at hparses
  have hboth : r.tokenId.isSome = true ∧ r.fingerprint.isSome = true := by
    simpa using hparses
  obtain ⟨id, hid⟩ := Option.isSome_iff_exists.mp hboth.1
  refine Inv.of_enter (h.base.enter hm rfl rfl _ (fun _ _ hn => hn) (fun _ _ hh => hh)
    ⟨?_, hsound.current, ?_⟩) ⟨_, rfl, hboth.2⟩
  · unfold Record.parses
    simp [hid, hboth.2]
  · intro c hc
    rw [hid] at hc
    cases hc
    exact ⟨id, now, hid, rfl⟩

theorem Inv.disconnect (hs : w.disconnect = some t) : t.Inv := by
  unfold World.disconnect at hs
  obtain ⟨record, hidle, hs⟩ := Option.map_eq_some_iff.mp hs
  rw [← hs]
  exact h.disconnects (idle_eq_some hidle)

/-! ## Instances come and go -/

theorem Inv.reading :
    Inv { w with memory := some ⟨w.saved, true, none⟩, returned := none } := by
  refine ⟨⟨h.base.single, ?_, ?_, h.base.calls, h.base.journal, ?_⟩, ?_, ?_, ?_⟩
  · intro x hx
    refine ⟨(h.base.tokens x hx).saved, ?_⟩
    intro m' hm' _
    cases hm'
    exact (h.base.tokens x hx).saved
  · intro name s id now hs hb
    refine ⟨(h.base.servers name s id now hs hb).saved, ?_⟩
    intro m' hm' _
    cases hm'
    exact (h.base.servers name s id now hs hb).saved
  · intro m' x hm' hx
    cases hm'
    exact h.base.journal x hx
  · intro m' hm'
    cases hm'
    refine ⟨fun _ => rfl, fun _ _ hr => hr, ?_⟩
    intro op hop
    cases hop
  · intro smooth hr
    cases hr
  · intro hr
    cases hr

end

theorem load_eq_some {readable : Bool} (h : w.load readable = some record) : record = w.saved := by
  unfold load at h
  split at h
  · cases h
    rfl
  · cases h

theorem Inv.start (h : w.Inv) {readable : Bool} {checks : Checks}
    (hs : w.start readable checks = some t) : t.Inv := by
  unfold World.start at hs
  rcases Option.ite_none_left_eq_some.mp hs with ⟨_, hs⟩
  split at hs
  · cases hs
    refine ⟨⟨h.base.single, ?_, ?_, h.base.calls, h.base.journal, ?_⟩, ?_, ?_, ?_⟩
    · intro x hx
      refine ⟨(h.base.tokens x hx).saved, ?_⟩
      intro m' hm' hl
      cases hm'
      cases hl
    · intro name s id now hs hb
      refine ⟨(h.base.servers name s id now hs hb).saved, ?_⟩
      intro m' hm' hl
      cases hm'
      cases hl
    · intro m' x hm' hx
      cases hm'
      cases hx
    · intro m' hm'
      cases hm'
      refine ⟨fun hop => absurd rfl hop, ?_, ?_⟩
      · intro _ hl
        cases hl
      · intro op hop
        cases hop
    · intro smooth hr
      cases hr
    · intro hr
      cases hr
  · rename_i record hload
    have hrecord := load_eq_some hload
    rw [hrecord] at hs
    have hread := h.reading
    have hsame : ∀ x, ({ w with memory := some ⟨w.saved, true, none⟩, returned := none } :
        World).disconnectLocked x = w.disconnectLocked x := by
      intro x
      unfold World.disconnectLocked
      split
      · rfl
      · split <;> rfl
    have hdisconnects := hread.disconnects rfl
    have hleave : (w.leave w.saved).Inv := hread.leave rfl
    rw [hsame] at hdisconnects
    cases hs
    unfold World.setup
    cases hsaved : w.saved with
    | none =>
      rw [hsaved] at hleave
      exact hleave
    | some r =>
      rw [hsaved] at hleave hdisconnects
      dsimp only
      split
      · exact hdisconnects
      split
      · exact hdisconnects
      split
      · exact hleave
      · exact hdisconnects

theorem Inv.remove (h : w.Inv) {readable : Bool} (hs : w.remove readable = some t) : t.Inv := by
  unfold World.remove at hs
  split at hs
  · cases hs
  split at hs
  · cases hs
    exact h
  rename_i record hload
  cases hs
  rw [load_eq_some hload]
  have hread := h.reading.disconnects rfl
  have hsame : ∀ x, ({ w with memory := some ⟨w.saved, true, none⟩, returned := none } :
      World).disconnectLocked x = w.disconnectLocked x := by
    intro x
    unfold World.disconnectLocked
    split
    · rfl
    · split <;> rfl
  rw [hsame] at hread
  exact hread

theorem Base.gone (h : w.Base) (hm : w.memory = some m) {saved : Option Record}
    (hsaved : saved = w.saved ∨ (m.loaded = true ∧ saved = m.record)) :
    Base { w with saved := saved, memory := none, returned := none } := by
  have hknown : ∀ P : Record → Prop, w.Known P →
      Known { w with saved := saved, memory := none, returned := none } P := by
    intro P hP
    refine ⟨?_, fun m' hm' => by cases hm'⟩
    rcases hsaved with hs | ⟨hl, hs⟩
    · rw [hs]
      exact hP.saved
    · rw [hs]
      exact hP.read m hm hl
  refine ⟨h.single, fun x hx => hknown _ (h.tokens x hx),
    fun name s id now hs hb => hknown _ (h.servers name s id now hs hb), h.calls, ?_,
    fun m' x hm' => by cases hm'⟩
  intro r hr
  replace hr : saved = some r := hr
  rcases hsaved with hs | ⟨hl, hs⟩
  · exact h.journal r (hs.symm.trans hr)
  · exact h.memory m r hm (hs.symm.trans hr)

theorem Inv.of_gone (hb : w.Base) (hm : w.memory = none) (hr : w.returned = none) : w.Inv where
  base := hb
  staged m' hm' := by
    rw [hm] at hm'
    cases hm'
  revoked smooth hs := by
    rw [hr] at hs
    cases hs
  emptied hs := by
    rw [hr] at hs
    cases hs

theorem Inv.close (h : w.Inv) (hs : w.close = some t) : t.Inv := by
  unfold World.close at hs
  split at hs
  · rename_i hm
    cases hs
    exact Inv.of_gone (h.base.gone hm (Or.inl rfl)) rfl rfl
  · cases hs

variable {call : Call}

theorem Inv.underWay (h : w.Inv) (hm : w.memory = some m) (hr : m.record = some r)
    {op : Operation} (hop : m.operation = some op)
    (hcall : underWay r op = some call) : call.Issued ∧ w.Led call := by
  have hwaits := (h.staged m hm).waits op hop
  unfold World.underWay at hcall
  split at hcall
  · obtain ⟨token, ht, rfl⟩ := Option.map_eq_some_iff.mp hcall
    exact h.led_add hm hr (hwaits.1.trans hr) ht
  · split at hcall
    · rename_i he ht
      cases hcall
      exact h.issued_replace hm hr he ht
    · cases hcall
  · cases hcall
    obtain ⟨_, ⟨x, hx, hdigests⟩, _⟩ := hwaits
    obtain ⟨id, now, _, hnow⟩ := hdigests _ (List.mem_cons_self ..)
    refine ⟨⟨id, now, hnow⟩, ?_⟩
    intro name id' now' hadd
    cases hadd
  · cases hcall

theorem Inv.crash (h : w.Inv) {effect : Effect} (hs : w.crash effect = some t) : t.Inv := by
  unfold World.crash at hs
  split at hs
  · rename_i record loaded operation hm
    dsimp only at hs
    replace hs := Option.some.inj hs
    rw [← hs]
    have hsaved : (if effect = .now ∧ operation.any Operation.saving then record else w.saved) =
        w.saved ∨ (loaded = true ∧
          (if effect = .now ∧ operation.any Operation.saving then record else w.saved) =
            record) := by
      split
      · rename_i hboth
        right
        refine ⟨(h.staged _ hm).loaded ?_, rfl⟩
        intro hnone
        replace hnone : operation = none := hnone
        rw [hnone] at hboth
        cases hboth.2
      · exact Or.inl rfl
    split
    · rename_i call hcall
      obtain ⟨r, hrec, hop⟩ := Option.bind_eq_some_iff.mp hcall
      obtain ⟨op, hoperation, hunder⟩ := Option.bind_eq_some_iff.mp hop
      obtain ⟨hissued, hled⟩ := h.underWay hm hrec hoperation hunder
      have honly := onlyApp_effect w call effect
      have hm' := honly.memory.trans hm
      refine Inv.of_gone ((h.base.effect hissued hled effect).gone hm' ?_) rfl rfl
      rw [honly.saved]
      exact hsaved
    · exact Inv.of_gone (h.base.gone hm hsaved) rfl rfl
  · cases hs

/-- Tokens go and servers change while the operation waits. -/
theorem Inv.around (h : w.Inv) (hb : t.Base) (htokens : w.tokens = [] → t.tokens = [])
    (hsaved : t.saved = w.saved) (hmemory : t.memory = w.memory)
    (hreturned : t.returned = w.returned) : t.Inv where
  base := hb
  staged m hm := by
    rw [hmemory] at hm
    have hstaged := h.staged m hm
    refine ⟨hstaged.loaded, ?_, ?_⟩
    · rw [hsaved]
      exact hstaged.idle
    intro op hop
    have hwaits := hstaged.waits op hop
    cases op with
    | savingPreparing => exact ⟨htokens hwaits.1, hwaits.2⟩
    | creatingToken => exact ⟨htokens hwaits.1, hsaved.trans hwaits.2.1, hwaits.2.2⟩
    | adding => exact ⟨hsaved.trans hwaits.1, hwaits.2⟩
    | savingDisconnecting => exact ⟨htokens hwaits.1, hwaits.2⟩
    | deselecting pending smooth => exact ⟨htokens hwaits.1, hwaits.2⟩
    | removing digests pending smooth => exact ⟨htokens hwaits.1, hwaits.2⟩
    | savingToken => exact hwaits
    | savingCreating => exact hwaits
    | selecting => exact hwaits
    | savingConnected => exact hwaits
    | savingRotating => exact hwaits
    | replacing => exact hwaits
    | savingRotated => exact hwaits
    | savingRetry => exact hwaits
    | findingOwner => exact hwaits
    | emptying record smooth => exact hwaits
  revoked smooth hr := by
    rw [hreturned] at hr
    exact htokens (h.revoked smooth hr)
  emptied hr := by
    rw [hreturned] at hr
    rw [hsaved]
    exact h.emptied hr

theorem Inv.revoke (h : w.Inv) (id : String) :
    Inv { w with tokens := w.tokens.filter fun x => x.id ≠ id } := by
  refine h.around ⟨?_, ?_, ?_, h.base.calls, h.base.journal, h.base.memory⟩ ?_ rfl rfl rfl
  · exact Nat.le_trans (List.length_filter_le _ _) h.base.single
  · intro x hx
    have hknown := h.base.tokens x (List.mem_filter.mp hx).1
    exact ⟨hknown.saved, hknown.read⟩
  · intro name s id' now hs hb
    have hknown := h.base.servers name s id' now hs hb
    exact ⟨hknown.saved, hknown.read⟩
  · intro htokens
    show w.tokens.filter _ = []
    rw [htokens]
    rfl

theorem Inv.edit (h : w.Inv) {name : String} {server : Option Server}
    (hs : w.edit name server = some t) : t.Inv := by
  unfold World.edit at hs
  split at hs
  · cases hs
    refine h.around (h.base.withServers _ ?_) (fun ht => ht) rfl rfl rfl
    intro n s id now hn hb
    rw [Dict.get?_erase] at hn
    split at hn
    · cases hn
    · exact h.base.servers n s id now hn hb
  · rename_i s
    split at hs
    · cases hs
    rename_i hmanual
    cases hs
    refine h.around (h.base.withServers _ ?_) (fun ht => ht) rfl rfl rfl
    intro n s' id now hn hb
    rw [Dict.get?_set] at hn
    split at hn
    · cases hn
      exact absurd (by rw [hb]; rfl) hmanual
    · exact h.base.servers n s' id now hn hb

theorem leadsTo_iff {name id : String} {now : Nat} :
    leadsTo name (.access id now) r = true → r.Holds name id := by
  unfold leadsTo
  intro h
  rw [Bool.and_eq_true, Bool.and_eq_true, Bool.and_eq_true, decide_eq_true_eq,
    decide_eq_true_eq] at h
  obtain ⟨⟨⟨hname, _⟩, hid⟩, hfp⟩ := h
  refine ⟨hname, hid, ?_⟩
  intro hnone
  rw [hnone] at hfp
  cases hfp

theorem Inv.serve (h : w.Inv) {i : Nat} (hi : w.late[i]? = some call)
    (hcareful : w.Careful (.serve i) = true) :
    ({ w with late := w.late.eraseIdx i }.serve call).Inv := by
  have hissued := h.base.calls call (List.mem_of_getElem? hi)
  have hb : Base { w with late := w.late.eraseIdx i } := by
    refine ⟨h.base.single, ?_, ?_, ?_, h.base.journal, h.base.memory⟩
    · intro x hx
      exact ⟨(h.base.tokens x hx).saved, (h.base.tokens x hx).read⟩
    · intro name s id now hs hb
      exact ⟨(h.base.servers name s id now hs hb).saved, (h.base.servers name s id now hs hb).read⟩
    · intro c hc
      exact h.base.calls c (List.mem_of_mem_eraseIdx hc)
  have hled : Led { w with late := w.late.eraseIdx i } call := by
    intro name id now hcall
    unfold Careful at hcareful
    dsimp only at hcareful
    rw [hi, hcall] at hcareful
    dsimp only at hcareful
    rw [Bool.and_eq_true, Option.any_eq_true] at hcareful
    obtain ⟨⟨r, hr, hleads⟩, hread⟩ := hcareful
    refine ⟨⟨r, hr, leadsTo_iff hleads⟩, ?_⟩
    intro m hm hl
    replace hm : w.memory = some m := hm
    rw [hm] at hread
    replace hread : (!m.loaded || m.record.any (leadsTo name (.access id now))) = true := hread
    rw [hl, Bool.not_true, Bool.false_or, Option.any_eq_true] at hread
    obtain ⟨x, hx, hleads'⟩ := hread
    exact ⟨x, hx, leadsTo_iff hleads'⟩
  have honly := onlyApp_serve { w with late := w.late.eraseIdx i } call
  refine h.around (hb.serve hissued hled) ?_ honly.saved honly.memory honly.returned
  intro htokens
  exact honly.tokens.trans htokens

theorem Inv.next (h : w.Inv) (step : Step) (hcareful : w.Careful step = true)
    (hs : w.next step = some t) : t.Inv := by
  cases step with
  | start readable checks => exact h.start hs
  | remove readable => exact h.remove hs
  | close => exact h.close hs
  | crash effect => exact h.crash hs
  | status checks listing => exact h.status hs
  | connect allowed ownerId name => exact h.connect hs
  | refresh checks now => exact h.refresh hs
  | disconnect => exact h.disconnect hs
  | save o now => exact h.save hcareful hs
  | create o id => exact h.create hs
  | request reply =>
    have hrequested : w.requested reply = some t ∧
        ∀ p effective, reply = .refused p effective → refusal p = true := by
      unfold World.next at hs
      dsimp only at hs
      split at hs
      · rcases Runs.enabled hs with ⟨hrefusal, hs⟩
        refine ⟨hs, ?_⟩
        intro p effective hp
        cases hp
        exact hrefusal
      · rename_i hno
        exact ⟨hs, fun p effective hp => absurd hp (hno p effective)⟩
    exact h.requested hcareful hrequested.2 hrequested.1
  | select o supported => exact h.selected hs
  | findOwner o => exact h.findOwner hs
  | revoke id =>
    cases hs
    exact h.revoke id
  | edit name server => exact h.edit hs
  | serve i =>
    unfold World.next at hs
    dsimp only at hs
    split at hs
    · rename_i call hi
      cases hs
      exact h.serve hi hcareful
    · cases hs

/-! ## What happens to the servers -/

def Handled (w t : World) : Prop :=
  t.servers = w.servers ∨ ∃ call, Call.Issued call ∧ handle w.servers call = .ok t.servers

@[simp] theorem servers_enter (w : World) (record : Option Record) (op : Operation) :
    (w.enter record op).servers = w.servers := rfl

@[simp] theorem servers_leave (w : World) (record : Option Record) :
    (w.leave record).servers = w.servers := rfl

@[simp] theorem servers_finish (w : World) (record : Option Record) (smooth : Bool) :
    (w.finish record smooth).servers = w.servers := rfl

@[simp] theorem servers_disconnectLocked (w : World) (record : Option Record) :
    (w.disconnectLocked record).servers = w.servers := by
  unfold disconnectLocked
  split
  · rfl
  · split <;> rfl

@[simp] theorem servers_ownerFound (w : World) (r : Record) (o : Outcome) :
    (w.ownerFound r o).servers = w.servers := by
  unfold ownerFound
  split <;> rfl

@[simp] theorem servers_removalEnded (w : World) (r : Record) (pending smooth : Bool) :
    (w.removalEnded r pending smooth).servers = w.servers := by
  unfold removalEnded
  split <;> rfl

@[simp] theorem servers_deselected (w : World) (r : Record) (pending smooth supported : Bool) :
    (w.deselected r pending smooth supported).servers = w.servers := by
  unfold deselected
  split
  · exact servers_removalEnded ..
  split
  · exact servers_removalEnded ..
  · rfl

@[simp] theorem servers_write (w : World) (record : Option Record) (o : Outcome) :
    (w.write record o).servers = w.servers := by
  unfold write
  split <;> rfl

@[simp] theorem servers_setup (w : World) (record : Option Record) (checks : Checks) :
    (w.setup record checks).servers = w.servers := by
  unfold setup
  split
  · rfl
  · repeat' split
    all_goals simp

@[simp] theorem servers_removed (w : World) (r : Record) (c : Credential)
    (rest : List Credential) (pending smooth : Bool) (reply : Reply) :
    (w.removed r c rest pending smooth reply).servers =
      (w.request (.remove r.serverName c) reply).servers := by
  unfold removed
  dsimp only
  repeat' split
  all_goals simp

theorem handled_serve (w : World) (hissued : call.Issued) :
    Handled w (w.serve call) := by
  unfold serve
  split
  · rename_i servers hok
    exact Or.inr ⟨call, hissued, hok⟩
  · exact Or.inl rfl

theorem handled_effect (w : World) (hissued : call.Issued) (effect : Effect) :
    Handled w (w.effect call effect) := by
  cases effect with
  | never => exact Or.inl rfl
  | now => exact handled_serve w hissued
  | later => exact Or.inl rfl

theorem handled_request (w : World) (hissued : call.Issued) (reply : Reply) :
    Handled w (w.request call reply) := by
  cases reply with
  | answered => exact handled_serve w hissued
  | refused p effective =>
    unfold request
    dsimp only
    split
    · exact handled_serve w hissued
    · exact Or.inl rfl
  | lost effect => exact handled_effect w hissued effect
  | cancelled effect => exact handled_effect w hissued effect

theorem Handled.of_servers {u : World} (h : Handled w u) (hu : t.servers = u.servers) :
    Handled w t := by
  unfold Handled at h ⊢
  rw [hu]
  exact h

theorem save_servers {now : Nat} (hs : w.save o now = some t) :
    t.servers = w.servers := by
  unfold World.save at hs
  split at hs
  · dsimp only at hs
    split at hs
    all_goals first
      | cases hs
        done
      | (replace hs := Option.some.inj hs
         rw [← hs]
         repeat' split
         all_goals simp)
  · cases hs

theorem create_servers {id : String} (hs : w.create o id = some t) :
    t.servers = w.servers := by
  unfold World.create at hs
  split at hs
  · dsimp only at hs
    replace hs := Option.some.inj hs
    rw [← hs]
    repeat' split
    all_goals simp
  · cases hs

theorem selected_servers {supported : Bool}
    (hs : w.selected o supported = some t) : t.servers = w.servers := by
  unfold World.selected at hs
  split at hs
  · replace hs := Option.some.inj hs
    rw [← hs]
    split <;> simp
  · replace hs := Option.some.inj hs
    rw [← hs]
    split <;> simp
  · cases hs

theorem Inv.requested_handled (h : w.Inv) {reply : Reply} (hs : w.requested reply = some t) :
    Handled w t := by
  unfold World.requested at hs
  split at hs
  · rename_i r hm
    obtain ⟨hsaved, _⟩ := (h.staged _ hm).waits _ rfl
    split at hs
    · rename_i token ht
      have hissued := (h.led_add hm rfl hsaved ht).1
      apply (handled_request w hissued reply).of_servers
      replace hs := Option.some.inj hs
      rw [← hs]
      split <;> simp
    · cases hs
  · rename_i r hm
    split at hs
    · rename_i expected token he ht
      have hissued := (h.issued_replace hm rfl he ht).1
      apply (handled_request w hissued reply).of_servers
      replace hs := Option.some.inj hs
      rw [← hs]
      repeat' split
      all_goals simp
    · cases hs
  · rename_i r c rest pending smooth hm
    obtain ⟨_, ⟨x, hx, hdigests⟩, _⟩ := (h.staged _ hm).waits _ rfl
    cases hx
    obtain ⟨id, now, _, hnow⟩ := hdigests c (List.mem_cons_self ..)
    have hissued : Call.Issued (.remove r.serverName c) := ⟨id, now, hnow⟩
    apply (handled_request w hissued reply).of_servers
    replace hs := Option.some.inj hs
    rw [← hs]
    exact servers_removed ..
  · cases hs

theorem Inv.crash_handled (h : w.Inv) {effect : Effect} (hs : w.crash effect = some t) :
    Handled w t := by
  unfold World.crash at hs
  split at hs
  · rename_i record loaded operation hm
    dsimp only at hs
    replace hs := Option.some.inj hs
    rw [← hs]
    split
    · rename_i call hcall
      obtain ⟨r, hrec, hop⟩ := Option.bind_eq_some_iff.mp hcall
      obtain ⟨op, hoperation, hunder⟩ := Option.bind_eq_some_iff.mp hop
      have hissued := (h.underWay hm hrec hoperation hunder).1
      exact (handled_effect w hissued effect).of_servers rfl
    · exact Or.inl rfl
  · cases hs

theorem map_idle_servers {f : Option Record → World} (hs : w.idle.map f = some t)
    (hf : ∀ record, (f record).servers = w.servers) : t.servers = w.servers := by
  obtain ⟨record, _, hs⟩ := Option.map_eq_some_iff.mp hs
  rw [← hs]
  exact hf record

theorem Inv.handled (h : w.Inv) (step : Step) (hs : w.next step = some t)
    (hedit : ∀ name server, step ≠ .edit name server) : Handled w t := by
  cases step with
  | start readable checks =>
    left
    replace hs : w.start readable checks = some t := hs
    unfold World.start at hs
    split at hs
    · cases hs
    split at hs
    · cases hs
      rfl
    · cases hs
      exact servers_setup ..
  | remove readable =>
    left
    replace hs : w.remove readable = some t := hs
    unfold World.remove at hs
    split at hs
    · cases hs
    split at hs
    · cases hs
      rfl
    · cases hs
      exact servers_disconnectLocked ..
  | close =>
    left
    replace hs : w.close = some t := hs
    unfold World.close at hs
    split at hs
    · cases hs
      rfl
    · cases hs
  | crash effect => exact h.crash_handled hs
  | status checks listing =>
    left
    refine map_idle_servers (f := _) hs ?_
    intro record
    repeat' split
    all_goals simp
  | connect allowed ownerId name =>
    left
    refine map_idle_servers (f := _) hs ?_
    intro record
    repeat' split
    all_goals simp
  | refresh checks now =>
    left
    refine map_idle_servers (f := _) hs ?_
    intro record
    dsimp only
    repeat' split
    all_goals simp
  | disconnect =>
    left
    exact map_idle_servers hs (fun record => servers_disconnectLocked w record)
  | save o now => exact Or.inl (save_servers hs)
  | create o id => exact Or.inl (create_servers hs)
  | request reply =>
    unfold World.next at hs
    dsimp only at hs
    split at hs
    · split at hs
      · exact h.requested_handled hs
      · cases hs
    · exact h.requested_handled hs
  | select o supported => exact Or.inl (selected_servers hs)
  | findOwner o =>
    left
    replace hs : w.findOwner o = some t := hs
    unfold World.findOwner at hs
    split at hs
    · cases hs
      exact servers_ownerFound ..
    · cases hs
  | revoke id =>
    cases hs
    exact Or.inl rfl
  | edit name server => exact absurd rfl (hedit name server)
  | serve i =>
    unfold World.next at hs
    dsimp only at hs
    split at hs
    · rename_i call hi
      cases hs
      exact handled_serve { w with late := w.late.eraseIdx i }
        (h.base.calls call (List.mem_of_getElem? hi))
    · cases hs

/-- Only a request with the digest of an issued token removes a server. -/
theorem Inv.removes (h : w.Inv) {step : Step} (hs : w.next step = some t) :
    w.Removes step t := by
  intro hedit name s hget hnone
  rcases h.handled step hs hedit with hsame | ⟨call, hissued, hok⟩
  · rw [hsame, hget] at hnone
    cases hnone
  rcases handle_ok hok with ⟨n, token, _, hnew⟩ | ⟨n, expected, token, old, _, _, _, hnew⟩
    | ⟨n, expected, old, hcall, hold, hbound, hnew⟩
  · rw [hnew, Dict.get?_set] at hnone
    split at hnone
    · cases hnone
    · rw [hget] at hnone
      cases hnone
  · rw [hnew, Dict.get?_set] at hnone
    split at hnone
    · cases hnone
    · rw [hget] at hnone
      cases hnone
  · rw [hnew, Dict.get?_erase] at hnone
    split at hnone
    · rename_i hn
      rw [hn, hold] at hget
      cases hget
      rw [hcall] at hissued
      obtain ⟨id, now, hexpected⟩ := hissued
      obtain ⟨hurl, hbearer⟩ := bound_iff.mp hbound
      rw [hexpected] at hbearer
      obtain ⟨r, hr, hname, hid, _⟩ := (h.base.servers n s id now hold hbearer).saved
      exact ⟨hurl, r, id, now, hr, hname.trans hn.symm, hid, hbearer⟩
    · rw [hget] at hnone
      cases hnone

/-- In every run whose steps are careful the grant is accounted for, and its last step has
removed no other server. -/
theorem run_accounted {steps : List Step} {step : Step}
    (hcareful : Runs.Meets next (fun s a => s.Careful a = true) initial steps)
    (hrun : Runs.exec next initial steps = some w) (hs : w.next step = some t) :
    w.Kept ∧ w.Removes step t := by
  have hinv : w.Inv := Runs.invariant_of_meets
    (fun s a u h hc hn => Inv.next h a hc hn) inv_initial hcareful hrun
  exact ⟨hinv.kept, hinv.removes hs⟩

def ready : Checks := ⟨true, true, false⟩

def SERVER : String := "ha-assist-0123456789ab"

def connecting : List Step :=
  [.start true ready, .connect true "admin" SERVER, .save .done 0, .create .done "token",
    .save .done 1, .save .done 0]

/-- A rotation whose answer is lost takes effect while the journal is written; the server is
removed. -/
def rotatedLate : List Step :=
  connecting ++ [.request .answered, .select .done true, .save .done 0, .refresh ready 2,
    .save .done 0, .request (.lost .later), .serve 0, .save .done 0, .select .done true,
    .request .answered]

theorem run_rotatedLate :
    ((Runs.exec next initial rotatedLate).bind fun w => w.next (.save .done 0)).isSome = true ∧
      ∀ w t, Runs.exec next initial rotatedLate = some w → w.next (.save .done 0) = some t →
        w.Kept ∧ w.Removes (.save .done 0) t :=
  ⟨by decide +kernel, fun _ _ hrun hs => run_accounted (by decide +kernel) hrun hs⟩

/-- A rotation is refused before it takes effect; the disconnect first tries the new digest,
and the App answers that the server has another credential. -/
def refusedRotation : List Step :=
  connecting ++ [.request .answered, .select .done true, .save .done 0, .refresh ready 2,
    .save .done 0, .request (.refused ⟨503, "mcp_unavailable"⟩ false), .save .done 0,
    .select .done true, .request .answered]

/-- Every step of the disconnect succeeded and the App answered, and the journal stays. -/
theorem refusedRotation_keepsJournal :
    ∃ w, Runs.exec next initial refusedRotation = some w ∧ ¬ w.Kept := by
  have hrun : (Runs.exec next initial refusedRotation).map (fun w =>
      (w.returned, w.saved.isSome)) = some (some true, true) := by decide +kernel
  obtain ⟨w, hw, hall⟩ := Option.map_eq_some_iff.mp hrun
  refine ⟨w, hw, ?_⟩
  intro hkept
  have hnone := hkept.emptied (congrArg Prod.fst hall)
  have hsome : w.saved.isSome = true := congrArg Prod.snd hall
  rw [hnone] at hsome
  cases hsome

end World

end CodexBridge.HaMcp
