import CodexBridge.Questions.Frames
import Mathlib.Data.List.Flatten

/-! # The saved ledger loads

Every value that is saved loads again, as long as no refresh has to keep more than eight devices
for one question while it replaces them.
-/

namespace CodexBridge.Questions

open Effect

/-! ## Entries that can be saved -/

structure Host.Secret (host : Host) (bound : Nat) : Prop where
  token : ∀ k < bound, isSecret (host.token k) = true
  clientRequestId : ∀ k < bound, isSecret (host.clientRequestId k) = true
  token_inj : ∀ i < bound, ∀ j < bound, host.token i = host.token j → i = j
  clientRequestId_inj : ∀ i < bound, ∀ j < bound,
    host.clientRequestId i = host.clientRequestId j → i = j
  digest : ∀ questions, isFingerprint (host.digest questions) = true

def ActionRow.DrawnAt (host : Host) (k : Nat) (a : ActionRow) : Prop :=
  a.token = host.token k ∧ a.clientRequestId = host.clientRequestId k

structure Fit (host : Host) (drawn : Nat) (entries : List LedgerEntry) : Prop where
  valid : ∀ e ∈ entries, e.Valid host.expiry
  unshared : Unshared entries
  below : ∀ a ∈ entries.flatMap LedgerEntry.actions, ∃ k < drawn, a.DrawnAt host k

section

variable {host : Host} {drawn : Nat} {entries : List LedgerEntry}

theorem Unshared.sub {es : List LedgerEntry} (h : Unshared entries) (hsub : es.Sublist entries) :
    Unshared es := by
  have hactions := hsub.flatMap LedgerEntry.actions
  exact ⟨h.1.sublist (hsub.map _), h.2.1.sublist (hactions.map _), h.2.2.sublist (hactions.map _)⟩

theorem Fit.sub {es : List LedgerEntry} (h : Fit host drawn entries)
    (hsub : es.Sublist entries) : Fit host drawn es where
  valid := fun e he => h.valid e (hsub.subset he)
  unshared := h.unshared.sub hsub
  below := fun a ha => h.below a ((hsub.flatMap LedgerEntry.actions).subset ha)

theorem Fit.mono {later : Nat} (h : Fit host drawn entries) (hle : drawn ≤ later) :
    Fit host later entries where
  valid := h.valid
  unshared := h.unshared
  below := by
    intro a ha
    obtain ⟨k, hk, hdrawn⟩ := h.below a ha
    exact ⟨k, by omega, hdrawn⟩

theorem fit_nil : Fit host drawn [] where
  valid := fun e he => by cases he
  unshared := ⟨List.nodup_nil, List.nodup_nil, List.nodup_nil⟩
  below := fun a ha => by cases ha

/-- A change that keeps the id of an entry and draws no secrets. -/
structure Minor (host : Host) (f : LedgerEntry → LedgerEntry) : Prop where
  id : ∀ e, (f e).interactionId = e.interactionId
  actions : ∀ e, (f e).actions.Sublist e.actions
  valid : ∀ e, e.Valid host.expiry → (f e).Valid host.expiry

theorem Fit.map {f : LedgerEntry → LedgerEntry} (h : Fit host drawn entries)
    (hf : Minor host f) : Fit host drawn (entries.map f) := by
  have hactions : ((entries.map f).flatMap LedgerEntry.actions).Sublist
      (entries.flatMap LedgerEntry.actions) := by
    rw [List.flatMap_map]
    exact List.Sublist.flatMap_right entries fun e _ => hf.actions e
  have hids : (entries.map f).map (·.interactionId) = entries.map (·.interactionId) := by
    rw [List.map_map]
    exact List.map_congr_left fun e _ => hf.id e
  refine ⟨?_, ⟨?_, ?_, ?_⟩, fun a ha => h.below a (hactions.subset ha)⟩
  · intro e he
    obtain ⟨x, hx, rfl⟩ := List.mem_map.mp he
    exact hf.valid x (h.valid x hx)
  · rw [hids]
    exact h.unshared.1
  · exact h.unshared.2.1.sublist (hactions.map _)
  · exact h.unshared.2.2.sublist (hactions.map _)

theorem Minor.at_id {f : LedgerEntry → LedgerEntry} (hf : Minor host f) (id : String) :
    Minor host fun e => if e.interactionId = id then f e else e where
  id := by
    intro e
    split
    · exact hf.id e
    · rfl
  actions := by
    intro e
    split
    · exact hf.actions e
    · exact List.Sublist.refl _
  valid := by
    intro e he
    split
    · exact hf.valid e he
    · exact he

theorem minor_persistent (b : Bool) : Minor host fun e => { e with persistent := b } where
  id := fun _ => rfl
  actions := fun _ => List.Sublist.refl _
  valid := fun _ he => ⟨he.head, he.length, he.destinations⟩

theorem minor_claim (b : Bool) : Minor host fun e => { e with attempted := b } where
  id := fun _ => rfl
  actions := fun _ => List.Sublist.refl _
  valid := fun _ he => ⟨he.head, he.length, he.destinations⟩

def Destination.marked (registrationId : String) (b : Bool) (d : Destination) : Destination :=
  if d.registrationId = registrationId then { d with attempted := b } else d

theorem Destination.marked_registrationId (registrationId : String) (b : Bool)
    (d : Destination) : (d.marked registrationId b).registrationId = d.registrationId := by
  unfold marked
  split
  · rfl
  · rfl

theorem minor_attempted (registrationId : String) (b : Bool) :
    Minor host fun e =>
      { e with destinations := e.destinations.map (Destination.marked registrationId b) } where
  id := fun _ => rfl
  actions := by
    intro e
    show ((e.destinations.map _).flatMap Destination.actions).Sublist
      (e.destinations.flatMap Destination.actions)
    rw [List.flatMap_map]
    apply List.Sublist.flatMap_right
    intro d _
    unfold Destination.marked
    split
    · exact List.Sublist.refl _
    · exact List.Sublist.refl _
  valid := by
    intro e he
    refine ⟨he.head, ?_, ?_⟩
    · rw [List.length_map]
      exact he.length
    intro d hd
    obtain ⟨x, hx, rfl⟩ := List.mem_map.mp hd
    have hvalid := he.destinations x hx
    unfold Destination.marked
    split
    · exact ⟨hvalid.binding, hvalid.length, hvalid.actions⟩
    · exact hvalid

theorem minor_removed (registrationId : String) :
    Minor host fun e =>
      { e with destinations := e.destinations.eraseP (·.registrationId = registrationId) } where
  id := fun _ => rfl
  actions := fun e => List.eraseP_sublist.flatMap _
  valid := by
    intro e he
    refine ⟨he.head, ?_, ?_⟩
    · exact Nat.le_trans (List.eraseP_sublist.length_le) he.length
    · exact fun d hd => he.destinations d (List.mem_of_mem_eraseP hd)

theorem Fit.create (h : Fit host drawn entries) {e : LedgerEntry} (hvalid : e.Valid host.expiry)
    (hnone : e.destinations = []) (hid : e.interactionId ∉ entries.map (·.interactionId)) :
    Fit host drawn (entries ++ [e]) := by
  have hactions : (entries ++ [e]).flatMap LedgerEntry.actions =
      entries.flatMap LedgerEntry.actions := by
    rw [List.flatMap_append, List.flatMap_singleton, LedgerEntry.actions, hnone]
    exact List.append_nil _
  refine ⟨?_, ⟨?_, ?_, ?_⟩, ?_⟩
  · intro x hx
    cases List.mem_append.mp hx with
    | inl hold => exact h.valid x hold
    | inr hnew =>
      rw [List.mem_singleton.mp hnew]
      exact hvalid
  · rw [List.map_append]
    exact List.Nodup.append h.unshared.1 (List.nodup_singleton _)
      (List.disjoint_singleton.mpr hid)
  · rw [hactions]
    exact h.unshared.2.1
  · rw [hactions]
    exact h.unshared.2.2
  · rw [hactions]
    exact h.below

def withDestination (id : String) (d : Destination) (e : LedgerEntry) : LedgerEntry :=
  if e.interactionId = id then { e with destinations := e.destinations ++ [d] } else e

theorem withDestination_id (id : String) (d : Destination) (e : LedgerEntry) :
    (withDestination id d e).interactionId = e.interactionId := by
  unfold withDestination
  split
  · rfl
  · rfl

theorem actions_withDestination (id : String) (d : Destination)
    (hids : (entries.map (·.interactionId)).Nodup) :
    (entries.map (withDestination id d)).flatMap LedgerEntry.actions =
        entries.flatMap LedgerEntry.actions ∨
      ((entries.map (withDestination id d)).flatMap LedgerEntry.actions).Perm
        (entries.flatMap LedgerEntry.actions ++ d.actions) := by
  induction entries with
  | nil => exact .inl rfl
  | cons e rest ih =>
    rw [List.map_cons, List.nodup_cons] at hids
    rw [List.map_cons, List.flatMap_cons, List.flatMap_cons]
    by_cases hid : e.interactionId = id
    · right
      have hrest : rest.map (withDestination id d) = rest := by
        have hother : ∀ x ∈ rest, withDestination id d x = x := by
          intro x hx
          apply if_neg
          intro heq
          apply hids.1
          rw [hid, ← heq]
          exact List.mem_map_of_mem hx
        exact (List.map_congr_left hother).trans (List.map_id rest)
      have hhead : (withDestination id d e).actions = e.actions ++ d.actions := by
        unfold withDestination
        rw [if_pos hid]
        show (e.destinations ++ [d]).flatMap (·.actions) = _
        rw [List.flatMap_append, List.flatMap_singleton]
        rfl
      rw [hrest, hhead, List.append_assoc, List.append_assoc]
      exact List.Perm.append_left _ List.perm_append_comm
    · have hhead : withDestination id d e = e := if_neg hid
      rw [hhead]
      cases ih hids.2 with
      | inl heq =>
        left
        rw [heq]
      | inr hperm =>
        right
        rw [List.append_assoc]
        exact List.Perm.append_left _ hperm

theorem nodup_withDestination (key : ActionRow → String) {id : String} {d : Destination}
    (hids : (entries.map (·.interactionId)).Nodup)
    (hold : ((entries.flatMap LedgerEntry.actions).map key).Nodup)
    (hnew : (d.actions.map key).Nodup)
    (hdisjoint : ∀ a ∈ entries.flatMap LedgerEntry.actions, ∀ b ∈ d.actions, key a ≠ key b) :
    (((entries.map (withDestination id d)).flatMap LedgerEntry.actions).map key).Nodup := by
  cases actions_withDestination id d hids with
  | inl heq =>
    rw [heq]
    exact hold
  | inr hperm =>
    rw [(hperm.map key).nodup_iff, List.map_append, List.nodup_append]
    refine ⟨hold, hnew, ?_⟩
    intro x hx y hy
    obtain ⟨a, ha, rfl⟩ := List.mem_map.mp hx
    obtain ⟨b, hb, rfl⟩ := List.mem_map.mp hy
    exact hdisjoint a ha b hb

/-- The secrets of the actions are draws between two counts, each once. -/
structure Draws (host : Host) (before later : Nat) (actions : List ActionRow) : Prop where
  between : ∀ a ∈ actions, ∃ k, before ≤ k ∧ k < later ∧ a.DrawnAt host k
  tokens : (actions.map (·.token)).Nodup
  clientRequestIds : (actions.map (·.clientRequestId)).Nodup

theorem Fit.add {bound later : Nat} (hhost : host.Secret bound) (h : Fit host drawn entries)
    (hle : drawn ≤ later) (hbound : later ≤ bound) {id : String} {d : Destination}
    (hvalid : d.Valid) (hdraws : Draws host drawn later d.actions)
    (hroom : ∀ e ∈ entries, e.interactionId = id → e.destinations.length < maxDestinations) :
    Fit host later (entries.map (withDestination id d)) := by
  -- what was drawn before differs from what is drawn now
  have hother : ∀ a ∈ entries.flatMap LedgerEntry.actions, ∀ b ∈ d.actions,
      a.token ≠ b.token ∧ a.clientRequestId ≠ b.clientRequestId := by
    intro a ha b hb
    obtain ⟨i, hi, hai⟩ := h.below a ha
    obtain ⟨j, hj, hjl, hbj⟩ := hdraws.between b hb
    rw [hai.1, hai.2, hbj.1, hbj.2]
    constructor
    · intro heq
      have hij := hhost.token_inj i (by omega) j (by omega) heq
      omega
    · intro heq
      have hij := hhost.clientRequestId_inj i (by omega) j (by omega) heq
      omega
  refine ⟨?_, ⟨?_, ?_, ?_⟩, ?_⟩
  · intro x hx
    obtain ⟨e, he, rfl⟩ := List.mem_map.mp hx
    have hold := h.valid e he
    unfold withDestination
    split
    · rename_i hid
      refine ⟨hold.head, ?_, ?_⟩
      · have hlength := hroom e he hid
        rw [List.length_append]
        exact hlength
      intro y hy
      cases List.mem_append.mp hy with
      | inl hin => exact hold.destinations y hin
      | inr hin =>
        rw [List.mem_singleton.mp hin]
        exact hvalid
    · exact hold
  · rw [List.map_map]
    have hids : entries.map ((·.interactionId) ∘ withDestination id d) =
        entries.map (·.interactionId) :=
      List.map_congr_left fun e _ => withDestination_id id d e
    rw [hids]
    exact h.unshared.1
  · exact nodup_withDestination _ h.unshared.1 h.unshared.2.1 hdraws.tokens
      fun a ha b hb => (hother a ha b hb).1
  · exact nodup_withDestination _ h.unshared.1 h.unshared.2.2 hdraws.clientRequestIds
      fun a ha b hb => (hother a ha b hb).2
  · intro a ha
    have hmem : a ∈ entries.flatMap LedgerEntry.actions ∨ a ∈ d.actions := by
      cases actions_withDestination id d h.unshared.1 with
      | inl heq =>
        rw [heq] at ha
        exact .inl ha
      | inr hperm => exact List.mem_append.mp (hperm.mem_iff.mp ha)
    cases hmem with
    | inl hold =>
      obtain ⟨k, hk, hdrawn⟩ := h.below a hold
      exact ⟨k, by omega, hdrawn⟩
    | inr hnew =>
      obtain ⟨k, _, hk, hdrawn⟩ := hdraws.between a hnew
      exact ⟨k, hk, hdrawn⟩

end

section

variable {host : Host}

theorem choiceLabels_length {question : Json} {labels : List String}
    (h : choiceLabels question = some labels) : labels.length ≤ 2 := by
  unfold choiceLabels at h
  split at h
  · obtain ⟨hlength, h⟩ := Option.ite_none_right_eq_some.mp h
    rw [Json.length_mapM h]
    exact hlength.2
  · cases h

def choiceRows (host : Host) (drawn count : Nat) : List ActionRow :=
  (List.range count).map fun k =>
    ⟨host.token (drawn + k), host.clientRequestId (drawn + k), .choice, some (.int k)⟩

def textRow (host : Host) (drawn : Nat) : ActionRow :=
  ⟨host.token drawn, host.clientRequestId drawn, .text, none⟩

theorem makeActions_eq (host : Host) (drawn : Nat) (question : Json) (preview : Bool) :
    ∃ count ≤ 2,
      makeActions host drawn question preview = (choiceRows host drawn count, drawn + count) ∨
        makeActions host drawn question preview =
          ((choiceRows host drawn count).take 1 ++ [textRow host (drawn + count)],
            drawn + count + 1) := by
  unfold makeActions
  dsimp only
  generalize hlabels : (if (preview && safePreview host question) = true then
    choiceLabels question else none) = labels
  have hcount : (labels.map List.length).getD 0 ≤ 2 := by
    cases labels with
    | none => exact Nat.zero_le 2
    | some found =>
      split at hlabels
      · exact choiceLabels_length hlabels
      · cases hlabels
  refine ⟨(labels.map List.length).getD 0, hcount, ?_⟩
  split
  · right
    split
    · rfl
    rename_i hfew
    -- a single choice is kept whole
    have htake : (choiceRows host drawn ((labels.map List.length).getD 0)).take 1 =
        choiceRows host drawn ((labels.map List.length).getD 0) :=
      List.take_of_length_le (Nat.not_lt.mp hfew)
    rw [htake]
    rfl
  · left
    rfl

theorem makeActions_le (drawn : Nat) (question : Json) (preview : Bool) :
    drawn ≤ (makeActions host drawn question preview).2 := by
  obtain ⟨count, _, hmade | hmade⟩ := makeActions_eq host drawn question preview
  · rw [hmade]
    exact Nat.le_add_right drawn count
  · rw [hmade]
    show drawn ≤ drawn + count + 1
    omega

variable {bound : Nat}

theorem draws_choiceRows (hhost : host.Secret bound) {drawn count : Nat}
    (hle : drawn + count ≤ bound) :
    Draws host drawn (drawn + count) (choiceRows host drawn count) where
  between := by
    intro a ha
    obtain ⟨k, hk, rfl⟩ := List.mem_map.mp ha
    have hlt := List.mem_range.mp hk
    exact ⟨drawn + k, by omega, by omega, rfl, rfl⟩
  tokens := by
    unfold choiceRows
    rw [List.map_map]
    apply List.Nodup.map_on _ List.nodup_range
    intro i hi j hj heq
    have hi' := List.mem_range.mp hi
    have hj' := List.mem_range.mp hj
    have hij := hhost.token_inj (drawn + i) (by omega) (drawn + j) (by omega) heq
    omega
  clientRequestIds := by
    unfold choiceRows
    rw [List.map_map]
    apply List.Nodup.map_on _ List.nodup_range
    intro i hi j hj heq
    have hi' := List.mem_range.mp hi
    have hj' := List.mem_range.mp hj
    have hij := hhost.clientRequestId_inj (drawn + i) (by omega) (drawn + j) (by omega) heq
    omega

theorem Draws.sub {before later : Nat} {xs ys : List ActionRow}
    (h : Draws host before later xs) (hsub : ys.Sublist xs) : Draws host before later ys where
  between := fun a ha => h.between a (hsub.subset ha)
  tokens := h.tokens.sublist (hsub.map _)
  clientRequestIds := h.clientRequestIds.sublist (hsub.map _)

theorem Draws.text (hhost : host.Secret bound) {before later : Nat} {xs : List ActionRow}
    (h : Draws host before later xs) (hbefore : before ≤ later) (hlt : later < bound) :
    Draws host before (later + 1) (xs ++ [textRow host later]) where
  between := by
    intro a ha
    cases List.mem_append.mp ha with
    | inl hold =>
      obtain ⟨k, hk, hkl, hdrawn⟩ := h.between a hold
      exact ⟨k, hk, by omega, hdrawn⟩
    | inr hnew =>
      rw [List.mem_singleton.mp hnew]
      exact ⟨later, hbefore, by omega, rfl, rfl⟩
  tokens := by
    rw [List.map_append]
    apply List.Nodup.append h.tokens (List.nodup_singleton _)
    apply List.disjoint_singleton.mpr
    intro hmem
    obtain ⟨a, ha, heq⟩ := List.mem_map.mp hmem
    obtain ⟨k, _, hk, hdrawn⟩ := h.between a ha
    have hkl := hhost.token_inj k (by omega) later hlt (hdrawn.1.symm.trans heq)
    omega
  clientRequestIds := by
    rw [List.map_append]
    apply List.Nodup.append h.clientRequestIds (List.nodup_singleton _)
    apply List.disjoint_singleton.mpr
    intro hmem
    obtain ⟨a, ha, heq⟩ := List.mem_map.mp hmem
    obtain ⟨k, _, hk, hdrawn⟩ := h.between a ha
    have hkl := hhost.clientRequestId_inj k (by omega) later hlt (hdrawn.2.symm.trans heq)
    omega

theorem choiceRows_index {drawn count : Nat} (hcount : count ≤ 2) {a : ActionRow}
    (ha : a ∈ choiceRows host drawn count) : indexValid a.kind a.index = true := by
  obtain ⟨k, hk, rfl⟩ := List.mem_map.mp ha
  have hlt := List.mem_range.mp hk
  have htwo : k = 0 ∨ k = 1 := by omega
  cases htwo with
  | inl h =>
    subst h
    rfl
  | inr h =>
    subst h
    rfl

/-- What `_make_destination` draws. -/
theorem makeActions_draws (hhost : host.Secret bound) {drawn : Nat} {question : Json}
    {preview : Bool} (hbound : (makeActions host drawn question preview).2 ≤ bound) :
    Draws host drawn (makeActions host drawn question preview).2
        (makeActions host drawn question preview).1 ∧
      (makeActions host drawn question preview).1.length ≤ 3 ∧
        ∀ a ∈ (makeActions host drawn question preview).1, indexValid a.kind a.index = true := by
  obtain ⟨count, hcount, hmade | hmade⟩ :=
    makeActions_eq host drawn question preview
  · rw [hmade] at hbound ⊢
    refine ⟨draws_choiceRows hhost hbound, ?_, fun a ha => choiceRows_index hcount ha⟩
    show (choiceRows host drawn count).length ≤ 3
    unfold choiceRows
    rw [List.length_map, List.length_range]
    omega
  rw [hmade] at hbound ⊢
  have hle : drawn + count + 1 ≤ bound := hbound
  have hrows : Draws host drawn (drawn + count) ((choiceRows host drawn count).take 1) :=
    (draws_choiceRows hhost (by omega)).sub (List.take_sublist _ _)
  refine ⟨hrows.text hhost (by omega) (by omega), ?_, ?_⟩
  · show ((choiceRows host drawn count).take 1 ++ [_]).length ≤ 3
    rw [List.length_append, List.length_take, List.length_singleton]
    omega
  intro a ha
  cases List.mem_append.mp ha with
  | inl hold => exact choiceRows_index hcount (List.mem_of_mem_take hold)
  | inr hnew =>
    rw [List.mem_singleton.mp hnew]
    rfl

theorem makeDestination_valid (hhost : host.Secret bound) {drawn : Nat} {r : Recipient}
    {question : Json} {preview : Bool}
    (hbound : (makeDestination host drawn r question preview).2 ≤ bound) :
    (makeDestination host drawn r question preview).1.Valid ∧
      Draws host drawn (makeDestination host drawn r question preview).2
        (makeDestination host drawn r question preview).1.actions := by
  obtain ⟨hdraws, hlength, hindex⟩ := makeActions_draws hhost hbound
  have hactions : (makeDestination host drawn r question preview).1.actions.Sublist
      (makeActions host drawn question preview).1 := by
    show (if r.inlineReply then (makeActions host drawn question preview).1 else []).Sublist _
    split
    · exact List.Sublist.refl _
    · exact List.nil_sublist _
  refine ⟨⟨r.valid, ?_, ?_⟩, hdraws.sub hactions⟩
  · exact Nat.le_trans hactions.length_le hlength
  intro a ha
  obtain ⟨k, _, hk, hdrawn⟩ := hdraws.between a (hactions.subset ha)
  have hlt : k < bound := Nat.lt_of_lt_of_le hk hbound
  refine ⟨?_, ?_, hindex a (hactions.subset ha)⟩
  · rw [hdrawn.1]
    exact hhost.token k hlt
  · rw [hdrawn.2]
    exact hhost.clientRequestId k hlt

def Listed (host : Host) (p : String × Json) : Prop :=
  validInteraction host p.2 = true ∧ p.1 = textOf p.2 "interaction_id"

theorem listed_setPending {pending : List (String × Json)} {id : String} {item : Json}
    (h : ∀ p ∈ pending, Listed host p) (hnew : Listed host (id, item)) :
    ∀ p ∈ setPending pending id item, Listed host p := by
  intro p hp
  unfold setPending at hp
  split at hp
  · obtain ⟨q, hq, rfl⟩ := List.mem_map.mp hp
    split
    · exact hnew
    · exact h q hq
  · cases List.mem_append.mp hp with
    | inl hold => exact h p hold
    | inr hin =>
      rw [List.mem_singleton.mp hin]
      exact hnew

theorem listed_pendingOf (now : Nat) (items : List Json) :
    ∀ p ∈ pendingOf host now items, Listed host p := by
  have hfold : ∀ pending : List (String × Json), (∀ p ∈ pending, Listed host p) →
      ∀ p ∈ items.foldl (fun pending item =>
        if validInteraction host item ∧
            (expiryValue host (get item "expires_at")).any fun deadline => now < deadline then
          setPending pending (textOf item "interaction_id") item
        else pending) pending, Listed host p := by
    induction items with
    | nil => exact fun _ h => h
    | cons item rest ih =>
      intro pending h
      rw [List.foldl_cons]
      apply ih
      split
      · rename_i hvalid
        exact listed_setPending h ⟨hvalid.1, rfl⟩
      · exact h
  exact hfold [] fun p hp => by cases hp

theorem isId_textOf {item : Json} {key : String} (h : isIdValue (get item key) = true) :
    isId (textOf item key) = true := by
  unfold isIdValue at h
  unfold textOf
  cases hs : (get item key).str? with
  | none =>
    rw [hs] at h
    cases h
  | some s =>
    rw [hs] at h
    exact h

theorem isText_questionIdOf (item : Json) : isText (questionIdOf host item) 128 = true := by
  unfold questionIdOf
  cases hq : question? host item with
  | none => decide +kernel
  | some question =>
    have hid : isTextValue (get question "question_id") 128 = true := by
      unfold question? at hq
      split at hq
      · rcases Runs.taken hq with ⟨hchecks, rfl⟩
        simp only [Bool.and_eq_true] at hchecks
        exact hchecks.1.1.2
      · cases hq
    unfold isTextValue at hid
    cases hs : (get question "question_id").str? with
    | none =>
      rw [hs] at hid
      cases hid
    | some s =>
      show isText ((get question "question_id").str?.getD "") 128 = true
      rw [hs] at hid ⊢
      exact hid

theorem newEntry_valid (hhost : host.Secret bound) {p : String × Json} (h : Listed host p)
    {fingerprint : String} (hprint : questionFingerprint host p.2 = some fingerprint) :
    (newEntry host p.1 p.2 fingerprint).Valid host.expiry where
  head := by
    obtain ⟨hvalid, hid⟩ := h
    unfold validInteraction at hvalid
    simp only [Bool.and_eq_true] at hvalid
    obtain ⟨⟨⟨⟨⟨⟨hinteraction, hthread⟩, _⟩, _⟩, _⟩, hexpires⟩, _⟩ := hvalid
    have hdigest : isFingerprint fingerprint = true := by
      unfold questionFingerprint at hprint
      split at hprint
      · obtain ⟨_, hprint⟩ := Option.ite_none_left_eq_some.mp hprint
        cases hprint
        exact hhost.digest _
      · cases hprint
    have hexpiry : (expiryOf host.expiry (textOf p.2 "expires_at")).isSome = true := by
      unfold expiryValue at hexpires
      unfold textOf
      cases hs : (get p.2 "expires_at").str? with
      | none =>
        rw [hs] at hexpires
        cases hexpires
      | some s =>
        rw [hs] at hexpires
        exact hexpires
    show headValid host.expiry p.1 (textOf p.2 "thread_id") (questionIdOf host p.2) fingerprint
      (textOf p.2 "expires_at") = true
    unfold headValid
    rw [hid, isId_textOf hinteraction, isId_textOf hthread, isText_questionIdOf, hdigest, hexpiry]
    rfl
  length := Nat.zero_le _
  destinations := fun d hd => by cases hd

end

/-- How many destinations there are once these devices have theirs. -/
def needed (registrations selected : List String) : Nat :=
  registrations.length + (selected.filter (· ∉ registrations)).length

def LedgerEntry.registrations (e : LedgerEntry) : List String :=
  e.destinations.map (·.registrationId)

def Within (todo : String → List String) (entries : List LedgerEntry) : Prop :=
  ∀ e ∈ entries, needed e.registrations (todo e.interactionId) ≤ maxDestinations

section

variable {entries : List LedgerEntry} {todo : String → List String}

theorem needed_mono {registrations fewer selected : List String}
    (hsub : fewer.Sublist selected) : needed registrations fewer ≤ needed registrations selected :=
  Nat.add_le_add_left (hsub.filter _).length_le _

theorem needed_cons_of_mem {registrations selected : List String} {r : String}
    (h : r ∈ registrations) :
      needed registrations (r :: selected) = needed registrations selected := by
  unfold needed
  rw [List.filter_cons_of_neg (by simpa using h)]

theorem needed_append {registrations selected : List String} {r : String} (h : r ∉ registrations) :
    needed (registrations ++ [r]) selected ≤ needed registrations (r :: selected) := by
  unfold needed
  rw [List.filter_cons_of_pos (by simpa using h)]
  simp only [List.length_append, List.length_cons, List.length_nil]
  have hfilter : (selected.filter (· ∉ registrations ++ [r])).length ≤
      (selected.filter (· ∉ registrations)).length := by
    apply (List.monotone_filter_right selected _).length_le
    intro x hx
    simp at hx ⊢
    exact hx.1
  omega

theorem needed_replace {registrations selected : List String} {r : String} (h : r ∈ registrations) :
    needed (registrations.erase r ++ [r]) selected ≤ needed registrations selected := by
  unfold needed
  rw [List.length_append, List.length_erase_of_mem h, List.length_singleton]
  have hpos := List.length_pos_of_mem h
  have hfilter : (selected.filter (· ∉ registrations.erase r ++ [r])).length ≤
      (selected.filter (· ∉ registrations)).length := by
    apply (List.monotone_filter_right selected _).length_le
    intro x hx
    simp at hx ⊢
    intro hmem
    exact hx.1 ((List.mem_erase_of_ne hx.2).mpr hmem)
  omega

theorem Within.sub {es : List LedgerEntry} (h : Within todo entries)
    (hsub : ∀ e ∈ es, e ∈ entries) : Within todo es :=
  fun e he => h e (hsub e he)

theorem Within.mono {fewer : String → List String} (h : Within todo entries)
    (hfewer : ∀ id, (fewer id).Sublist (todo id)) : Within fewer entries :=
  fun e he => Nat.le_trans (needed_mono (hfewer e.interactionId)) (h e he)

theorem Within.map {f : LedgerEntry → LedgerEntry} (h : Within todo entries)
    (hid : ∀ e, (f e).interactionId = e.interactionId)
    (hf : ∀ e ∈ entries, needed (f e).registrations (todo e.interactionId) ≤
      needed e.registrations (todo e.interactionId)) : Within todo (entries.map f) := by
  intro x hx
  obtain ⟨e, he, rfl⟩ := List.mem_map.mp hx
  rw [hid]
  exact Nat.le_trans (hf e he) (h e he)

theorem registrations_erase (r : String) (ds : List Destination) :
    (ds.eraseP (·.registrationId = r)).map (·.registrationId) =
      (ds.map (·.registrationId)).erase r := by
  induction ds with
  | nil => rfl
  | cons d rest ih =>
    by_cases hd : d.registrationId = r
    · rw [List.eraseP_cons_of_pos (by simpa using hd), List.map_cons, hd, List.erase_cons_head]
    · rw [List.eraseP_cons_of_neg (by simpa using hd), List.map_cons, List.map_cons,
        List.erase_cons_tail (by simpa using hd), ih]

end

section

variable (host : Host)

def Loads (value : Json) : Prop :=
  ∃ es, value = ledgerValue es ∧ normaliseLedger host.expiry value = some es

structure Sound (s : State) : Prop where
  entries : Fit host s.drawn s.entries
  stored : s.stored = .null ∨ ∃ es, s.stored = ledgerValue es ∧ es.length ≤ maxInteractions ∧
    Fit host s.drawn es
  passed : ∀ value ∈ s.passed, Loads host value

/-- This holds, together with `Q`, as long as no more than `bound` secrets are drawn. -/
def Kept (bound : Nat) (Q : List LedgerEntry → Prop) (s : State) : Prop :=
  s.drawn ≤ bound → Sound host s ∧ Q s.entries

end

section

variable {host : Host} {bound : Nat} {Q R : List LedgerEntry → Prop}

theorem Fit.loads {drawn : Nat} {es : List LedgerEntry} (h : Fit host drawn es)
    (hlength : es.length ≤ maxInteractions) : Loads host (ledgerValue es) :=
  ⟨es, rfl, normalise_ledgerValue h.valid h.unshared hlength⟩

theorem length_lastEntries (entries : List LedgerEntry) :
    (lastEntries entries).length ≤ maxInteractions := by
  unfold lastEntries
  rw [List.length_drop]
  omega

theorem Kept.weaken {s : State} (h : Kept host bound Q s) (hqr : ∀ es, Q es → R es) :
    Kept host bound R s :=
  fun hd => ⟨(h hd).1, hqr _ (h hd).2⟩

theorem Kept.any {s : State} (h : Kept host bound Q s) : Kept host bound (fun _ => True) s :=
  h.weaken fun _ _ => trivial

theorem kept_lasting (Q : List LedgerEntry → Prop) : Lasting (Kept host bound Q) where
  after := by
    intro s m h hd
    obtain ⟨hs, hq⟩ := h hd
    exact ⟨⟨hs.entries, hs.stored, hs.passed⟩, hq⟩
  saved := by
    intro s m stored h hstored hd
    obtain ⟨hs, hq⟩ := h hd
    have hlast : Fit host s.drawn (lastEntries s.entries) := hs.entries.sub (List.drop_sublist _ _)
    have hlength := length_lastEntries s.entries
    refine ⟨⟨hs.entries, ?_, ?_⟩, hq⟩
    · cases hstored with
      | inl hold =>
        rw [show _ = s.stored from hold]
        exact hs.stored
      | inr hnew => exact .inr ⟨lastEntries s.entries, hnew, hlength, hlast⟩
    · intro value hvalue
      cases List.mem_append.mp hvalue with
      | inl hold => exact hs.passed value hold
      | inr hin =>
        rw [List.mem_singleton.mp hin]
        exact hlast.loads hlength

variable {id : String}

theorem kept_setEntry {f : LedgerEntry → LedgerEntry} (hf : Minor host f)
    (hq : ∀ es, Q es → R (es.map fun e => if e.interactionId = id then f e else e)) :
    Triple (Kept host bound Q) (setEntry id f) (fun _ => Kept host bound R)
      (fun _ => Kept host bound (fun _ => True)) := by
  apply Triple.modify
  intro s h hd
  obtain ⟨hs, hqs⟩ := h hd
  exact ⟨⟨hs.entries.map (hf.at_id id), hs.stored, hs.passed⟩, hq _ hqs⟩

theorem keeps_setEntry {f : LedgerEntry → LedgerEntry} (hf : Minor host f)
    (hq : ∀ es, Q es → Q (es.map fun e => if e.interactionId = id then f e else e)) :
    Keeps (Kept host bound Q) (setEntry id f) := by
  apply Keeps.modify
  intro s h hd
  obtain ⟨hs, hqs⟩ := h hd
  exact ⟨⟨hs.entries.map (hf.at_id id), hs.stored, hs.passed⟩, hq _ hqs⟩

theorem Kept.sub {s : State} {es : List LedgerEntry} (h : Kept host bound Q s)
    (hsub : es.Sublist s.entries) (hq : Q s.entries → R es) :
    Kept host bound R { s with entries := es } := by
  intro hd
  obtain ⟨hs, hqs⟩ := h hd
  exact ⟨⟨hs.entries.sub hsub, hs.stored, hs.passed⟩, hq hqs⟩

variable {todo : String → List String}

theorem within_at_id {f : LedgerEntry → LedgerEntry} {es : List LedgerEntry} (hf : Minor host f)
    (hneeded : ∀ e ∈ es, e.interactionId = id →
      needed (f e).registrations (todo id) ≤ needed e.registrations (todo id))
        (h : Within todo es) :
    Within todo (es.map fun e => if e.interactionId = id then f e else e) := by
  apply h.map (hf.at_id id).id
  intro e he
  by_cases hid : e.interactionId = id
  · rw [if_pos hid, hid]
    exact hneeded e he hid
  · exact Nat.le_of_eq (by rw [if_neg hid])

theorem kept_markable (todo : String → List String) : Markable (Kept host bound (Within todo)) where
  toLasting := kept_lasting _
  persistent := fun _ b =>
    keeps_setEntry (minor_persistent b) fun _ h => by
      have hminor : Minor host _ := minor_persistent b
      exact within_at_id hminor (fun _ _ _ => Nat.le_refl _) h
  attempted := fun _ registrationId b =>
    keeps_setEntry (minor_attempted registrationId b) fun _ h => by
      have hminor : Minor host _ := minor_attempted registrationId b
      apply within_at_id hminor _ h
      intro e _ _
      have hsame : (e.destinations.map (Destination.marked registrationId b)).map
          (·.registrationId) = e.registrations := by
        rw [List.map_map]
        exact List.map_congr_left fun d _ => d.marked_registrationId registrationId b
      exact Nat.le_of_eq (congrArg (needed · _) hsame)

theorem kept_editable (hdone : todo id = []) : Editable (Kept host bound (Within todo)) id where
  toMarkable := kept_markable todo
  removed := fun registrationId =>
    keeps_setEntry (minor_removed registrationId) fun _ h => by
      have hminor : Minor host _ := minor_removed registrationId
      apply within_at_id hminor _ h
      intro e _ _
      rw [hdone]
      show needed ((e.destinations.eraseP _).map _) [] ≤ _
      rw [registrations_erase]
      exact Nat.add_le_add_right List.erase_sublist.length_le _

/-! ## One selected device -/

open Function (update)

/-- The entry of `id` has room for the device `r`, and for what is to do then. -/
def Making (todo : String → List String) (id r : String) (entries : List LedgerEntry) : Prop :=
  ∀ e ∈ entries, needed (if e.interactionId = id then e.registrations ++ [r] else e.registrations)
    (todo e.interactionId) ≤ maxDestinations

variable {e : LedgerEntry}

theorem Making.room {id r : String} {entries : List LedgerEntry}
    (h : Making todo id r entries) (he : e ∈ entries)
    (hid : e.interactionId = id) : e.destinations.length < maxDestinations := by
  have hroom := h e he
  rw [if_pos hid] at hroom
  unfold needed LedgerEntry.registrations at hroom
  rw [List.length_append, List.length_map, List.length_singleton] at hroom
  omega

theorem Making.within {entries : List LedgerEntry}
    {d : Destination} (h : Making todo id d.registrationId entries) :
    Within todo (entries.map (withDestination id d)) := by
  intro x hx
  obtain ⟨e, he, rfl⟩ := List.mem_map.mp hx
  have hroom := h e he
  rw [withDestination_id]
  unfold withDestination
  by_cases hid : e.interactionId = id
  · rw [if_pos hid] at hroom ⊢
    have hregistrations : ({ e with destinations := e.destinations ++ [d] } :
        LedgerEntry).registrations = e.registrations ++ [d.registrationId] := by
      show (e.destinations ++ [d]).map (·.registrationId) = _
      rw [List.map_append]
      rfl
    rw [hregistrations]
    exact hroom
  · rw [if_neg hid] at hroom ⊢
    exact hroom

theorem kept_addRecipient (hhost : host.Secret bound) {todo : String → List String}
    {question : Option Json} {preview : Bool} {r : Recipient} :
    Triple (Kept host bound (Making todo id r.registrationId))
      (addRecipient host id question preview r) (fun _ => Kept host bound (Within todo))
      (fun _ => Kept host bound (Within todo)) := by
  have htail : Keeps (Kept host bound (Within todo)) (do
      let _ ← persist
      let closed ← Effect.read (·.closed)
      if ¬ closed then deliverMobile id r.registrationId r.service) := by
    have hmark : Markable (Kept host bound (Within todo)) := kept_markable todo
    refine Keeps.bind hmark.persist fun _ => Keeps.bind Keeps.read fun closed => ?_
    split
    · exact hmark.deliverMobile _ _ _
    · exact Keeps.pure
  intro s h
  apply htail { s with
    drawn := (makeDestination host s.drawn r (question.getD (.obj [])) preview).2
    entries := s.entries.map (withDestination id
      (makeDestination host s.drawn r (question.getD (.obj [])) preview).1) }
  intro hbound
  have hle : s.drawn ≤ (makeDestination host s.drawn r (question.getD (.obj [])) preview).2 :=
    makeActions_le s.drawn (question.getD (.obj [])) preview
  obtain ⟨hs, hmaking⟩ := h (Nat.le_trans hle hbound)
  obtain ⟨hvalid, hdraws⟩ := makeDestination_valid hhost hbound
  refine ⟨⟨?_, ?_, hs.passed⟩, ?_⟩
  · exact hs.entries.add hhost hle hbound hvalid hdraws fun e he hid => hmaking.room he hid
  · cases hs.stored with
    | inl hnull => exact .inl hnull
    | inr hsaved =>
      obtain ⟨es, heq, hlength, hfit⟩ := hsaved
      exact .inr ⟨es, heq, hlength, hfit.mono hle⟩
  · exact hmaking.within

theorem findEntry_of_mem {s : State}
    (hids : (s.entries.map (·.interactionId)).Nodup) (he : e ∈ s.entries) :
    findEntry s e.interactionId = some e := by
  unfold findEntry
  cases hfind : s.entries.find? (·.interactionId = e.interactionId) with
  | none =>
    have hne := List.find?_eq_none.mp hfind e he
    exact absurd (decide_eq_true rfl) hne
  | some x =>
    have hid := List.find?_some hfind
    rw [List.inj_on_of_nodup_map hids (List.mem_of_find?_eq_some hfind) he
      (of_decide_eq_true hid)]

theorem findDestination_none {r : String} (h : findDestination e r = none) :
    r ∉ e.registrations := by
  intro hmem
  obtain ⟨d, hd, heq⟩ := List.mem_map.mp hmem
  exact List.find?_eq_none.mp h d hd (decide_eq_true heq)

theorem findDestination_some {r : String} {d : Destination}
    (h : findDestination e r = some d) : r ∈ e.registrations := by
  have hid := List.find?_some h
  exact List.mem_map.mpr ⟨d, List.mem_of_find?_eq_some h, of_decide_eq_true hid⟩

/-- One selected device gets its destination. -/
theorem kept_refreshRecipient (hhost : host.Secret bound)
    {question : Option Json} {preview : Bool} {r : Recipient} {rest : List String} :
    Triple (Kept host bound (Within (update todo id (r.registrationId :: rest))))
      (refreshRecipient host id question preview r)
      (fun _ => Kept host bound (Within (update todo id rest)))
      (fun _ => Kept host bound fun _ => True) := by
  have hadd : Triple (Kept host bound (Making (update todo id rest) id r.registrationId))
      (addRecipient host id question preview r)
      (fun _ => Kept host bound (Within (update todo id rest)))
      (fun _ => Kept host bound fun _ => True) :=
    (kept_addRecipient hhost).raises fun _ _ h => h.any
  unfold refreshRecipient
  apply Triple.bind
    (Q := fun _ => Kept host bound (Within (update todo id (r.registrationId :: rest))))
  · exact Triple.read fun _ h => h
  intro closed
  split
  · exact Triple.raise fun _ h => h.any
  apply Triple.bind (Q := fun e s =>
    Kept host bound (Within (update todo id (r.registrationId :: rest))) s ∧ findEntry s id = e)
  · exact Triple.read fun s h => ⟨h, rfl⟩
  intro found
  cases hd : found.bind fun e => findDestination e r.registrationId with
  | none =>
    apply hadd.weaken _ (fun _ _ h => h) fun _ _ h => h
    intro s hs hbound
    obtain ⟨hsound, hwithin⟩ := hs.1 hbound
    refine ⟨hsound, ?_⟩
    intro e he
    have hroom := hwithin e he
    by_cases hid : e.interactionId = id
    · rw [if_pos hid]
      rw [hid, Function.update_self] at hroom ⊢
      have hfound := findEntry_of_mem hsound.entries.unshared.1 he
      rw [hid, hs.2] at hfound
      rw [hfound] at hd
      exact Nat.le_trans (needed_append (findDestination_none hd)) hroom
    · rw [if_neg hid]
      rw [Function.update_of_ne hid] at hroom ⊢
      exact hroom
  | some d =>
    obtain ⟨x, rfl, hx⟩ := Option.bind_eq_some_iff.mp hd
    have hmem := findDestination_some hx
    -- the entry has a destination for the device
    have hhas : ∀ s, (Kept host bound
        (Within (update todo id (r.registrationId :: rest))) s ∧ findEntry s id = some x) →
        Kept host bound (fun es => Within (update todo id rest) es ∧
          ∀ e ∈ es, e.interactionId = id → r.registrationId ∈ e.registrations) s := by
      intro s hs hbound
      obtain ⟨hsound, hwithin⟩ := hs.1 hbound
      have hin : ∀ e ∈ s.entries, e.interactionId = id → r.registrationId ∈ e.registrations := by
        intro e he hid
        have hfound := findEntry_of_mem hsound.entries.unshared.1 he
        rw [hid, hs.2] at hfound
        cases hfound
        exact hmem
      refine ⟨hsound, ?_, hin⟩
      intro e he
      have hroom := hwithin e he
      by_cases hid : e.interactionId = id
      · rw [hid, Function.update_self] at hroom ⊢
        rw [needed_cons_of_mem (hin e he hid)] at hroom
        exact hroom
      · rw [Function.update_of_ne hid] at hroom ⊢
        exact hroom
    dsimp only
    split
    · apply Triple.bind (Q := fun _ => Kept host bound
        (fun es => Within (update todo id rest) es ∧
          ∀ e ∈ es, e.interactionId = id → r.registrationId ∈ e.registrations))
      · exact Triple.weaken ((kept_lasting _).clearMobile d) hhas (fun _ _ h => h)
          fun _ _ h => h.any
      intro _
      apply Triple.bind
        (Q := fun _ => Kept host bound (Making (update todo id rest) id r.registrationId))
      · apply kept_setEntry (minor_removed r.registrationId)
        intro es hes y hy
        obtain ⟨e, he, rfl⟩ := List.mem_map.mp hy
        have hroom := hes.1 e he
        by_cases hid : e.interactionId = id
        · rw [if_pos hid, if_pos (show _ = id from hid)]
          show needed ((e.destinations.eraseP _).map _ ++ [_]) (update todo id rest
            e.interactionId) ≤ _
          rw [registrations_erase]
          exact Nat.le_trans (needed_replace (hes.2 e he hid)) hroom
        · rw [if_neg hid, if_neg hid]
          exact hroom
      · intro _
        exact hadd
    · split
      · have hmark : Markable (Kept host bound (Within (update todo id rest))) :=
          kept_markable _
        apply Triple.weaken (hmark.deliverMobile _ _ _) _ (fun _ _ h => h) fun _ _ h => h.any
        intro s hs
        exact (hhas s hs).weaken fun _ h => h.1
      · apply Triple.pure
        intro s hs
        exact (hhas s hs).weaken fun _ h => h.1

theorem kept_refreshRecipients (hhost : host.Secret bound)
    {question : Option Json} {preview : Bool} (selected : List Recipient) :
    Triple (Kept host bound (Within (update todo id (selected.map (·.registrationId)))))
      (forEach selected fun r => refreshRecipient host id question preview r)
      (fun _ => Kept host bound (Within (update todo id [])))
      (fun _ => Kept host bound fun _ => True) := by
  induction selected with
  | nil => exact Triple.pure fun _ h => h
  | cons r rest ih => exact Triple.bind (kept_refreshRecipient hhost) fun _ => ih

/-! ## A refresh -/

theorem kept_ensureEntry (hhost : host.Secret bound)
    {p : String × Json} (hlisted : Listed host p) {fingerprint : String}
    (hprint : questionFingerprint host p.2 = some fingerprint)
    (hfew : (todo p.1).length ≤ maxDestinations) :
    Triple (Kept host bound (Within todo)) (ensureEntry host p.1 p.2 fingerprint)
      (fun _ => Kept host bound (Within todo)) (fun _ => Kept host bound fun _ => True) := by
  -- a new entry has no devices yet
  have hcreate : ∀ s, Kept host bound (fun es => Within todo es ∧
      p.1 ∉ es.map (·.interactionId)) s → Kept host bound (Within todo)
        { s with entries := s.entries ++ [newEntry host p.1 p.2 fingerprint] } := by
    intro s h hbound
    obtain ⟨hs, hwithin, hnot⟩ := h hbound
    refine ⟨⟨hs.entries.create (newEntry_valid hhost hlisted hprint) rfl hnot, hs.stored,
      hs.passed⟩, ?_⟩
    intro e he
    cases List.mem_append.mp he with
    | inl hold => exact hwithin e hold
    | inr hnew =>
      rw [List.mem_singleton.mp hnew]
      show 0 + ((todo p.1).filter _).length ≤ maxDestinations
      have hfilter := List.length_filter_le
        (· ∉ (newEntry host p.1 p.2 fingerprint).registrations) (todo p.1)
      omega
  unfold ensureEntry
  apply Triple.bind
    (Q := fun existing s => Kept host bound (Within todo) s ∧ findEntry s p.1 = existing)
  · exact Triple.read fun s h => ⟨h, rfl⟩
  intro existing
  cases existing with
  | none =>
    apply Triple.modify
    intro s h
    apply hcreate s
    intro hbound
    obtain ⟨hs, hwithin⟩ := h.1 hbound
    refine ⟨hs, hwithin, ?_⟩
    intro hmem
    obtain ⟨e, he, hid⟩ := List.mem_map.mp hmem
    exact List.find?_eq_none.mp h.2 e he (decide_eq_true hid)
  | some e =>
    dsimp only
    split
    · exact Triple.pure fun _ h => h.1
    apply Triple.bind (Q := fun _ => Kept host bound (Within todo))
    · exact Triple.weaken ((kept_lasting _).clearEntry e) (fun _ h => h.1) (fun _ _ h => h)
        fun _ _ h => h.any
    intro _
    apply Triple.bind (Q := fun _ => Kept host bound (fun es => Within todo es ∧
      p.1 ∉ es.map (·.interactionId)))
    · apply Triple.modify
      intro s h
      apply h.sub List.filter_sublist
      intro hwithin
      refine ⟨hwithin.sub fun x hx => List.mem_of_mem_filter hx, ?_⟩
      intro hmem
      obtain ⟨x, hx, hid⟩ := List.mem_map.mp hmem
      exact of_decide_eq_true (List.mem_filter.mp hx).2 hid
    · intro _
      exact Triple.modify hcreate

theorem kept_evict : Keeps (Kept host bound (Within todo)) evict := by
  unfold evict
  apply Triple.bind
    (Q := fun entries s => Kept host bound (Within todo) s ∧ s.entries = entries)
  · exact Triple.read fun s h => ⟨h, rfl⟩
  intro entries
  split
  · rename_i oldest rest
    split
    · apply Triple.bind (Q := fun _ => Kept host bound (Within todo))
      · apply Triple.modify
        intro s h
        have hsub : rest.Sublist s.entries := by
          rw [h.2]
          exact List.sublist_cons_self oldest rest
        exact h.1.sub hsub fun hwithin => hwithin.sub fun x hx => hsub.subset hx
      · intro _
        exact (kept_lasting _).clearEntry oldest
    · exact Triple.pure fun _ h => h.1
  · exact Triple.pure fun _ h => h.1

def todoOf (selected : List String) (pending : List (String × Json)) (id : String) : List String :=
  if id ∈ pending.map Prod.fst then selected else []

theorem todoOf_cons {selected : List String} {p : String × Json} {rest : List (String × Json)}
    (id : String) :
    (todoOf selected rest id).Sublist (todoOf selected (p :: rest) id) := by
  unfold todoOf
  split
  · rename_i hmem
    rw [if_pos (show id ∈ (p :: rest).map Prod.fst from List.mem_cons_of_mem p.1 hmem)]
  · exact List.nil_sublist _

theorem kept_refreshQuestion (hhost : host.Secret bound) (plan : Plan) {p : String × Json}
    {rest : List (String × Json)} (hlisted : Listed host p) (hnot : p.1 ∉ rest.map Prod.fst) :
    Triple
      (Kept host bound (Within (todoOf ((plan.wanted.take maxDestinations).map
        (·.registrationId)) (p :: rest))))
      (refreshQuestion host plan p)
      (fun _ => Kept host bound (Within (todoOf ((plan.wanted.take maxDestinations).map
        (·.registrationId)) rest)))
      (fun _ => Kept host bound fun _ => True) := by
  let selected := (plan.wanted.take maxDestinations).map (·.registrationId)
  have hself : todoOf selected (p :: rest) p.1 = selected := if_pos List.mem_cons_self
  have hupdate : update (todoOf selected (p :: rest)) p.1 selected =
      todoOf selected (p :: rest) := by
    have heq := Function.update_eq_self p.1 (todoOf selected (p :: rest))
    rw [hself] at heq
    exact heq
  have hfew : (todoOf selected (p :: rest) p.1).length ≤ maxDestinations := by
    rw [hself, List.length_map, List.length_take]
    omega
  unfold refreshQuestion
  apply Triple.bind (Q := fun _ => Kept host bound (Within (todoOf selected (p :: rest))))
  · exact Triple.read fun _ h => h
  intro closed
  split
  · exact Triple.raise fun _ h => h.any
  cases hprint : questionFingerprint host p.2 with
  | none => exact Triple.pure fun _ h => h.weaken fun _ hw => hw.mono todoOf_cons
  | some fingerprint =>
    apply Triple.bind (Q := fun _ => Kept host bound (Within (todoOf selected (p :: rest))))
    · exact kept_ensureEntry hhost hlisted hprint hfew
    intro _
    apply Triple.bind (Q := fun _ => Kept host bound (Within (todoOf selected (p :: rest))))
    · exact Triple.weaken ((kept_markable _).refreshPersistent p.1 plan.persistent)
        (fun _ h => h) (fun _ _ h => h) fun _ _ h => h.any
    intro _
    apply Triple.bind
      (Q := fun _ => Kept host bound (Within (update (todoOf selected (p :: rest)) p.1 [])))
    · have hloop : Triple
          (Kept host bound (Within (update (todoOf selected (p :: rest)) p.1 selected)))
          (forEach (plan.wanted.take maxDestinations) fun r =>
            refreshRecipient host p.1 (question? host p.2) plan.preview r)
          (fun _ => Kept host bound (Within (update (todoOf selected (p :: rest)) p.1 [])))
          (fun _ => Kept host bound fun _ => True) :=
        kept_refreshRecipients hhost _
      rw [hupdate] at hloop
      exact hloop
    intro _
    have hedit : Editable (Kept host bound (Within (update (todoOf selected (p :: rest)) p.1 [])))
        p.1 := kept_editable (Function.update_self _ _ _)
    apply Triple.bind
      (Q := fun _ => Kept host bound (Within (update (todoOf selected (p :: rest)) p.1 [])))
    · exact Triple.weaken (hedit.dropDestinations plan.wanted) (fun _ h => h) (fun _ _ h => h)
        fun _ _ h => h.any
    intro _
    apply Triple.weaken kept_evict (fun _ h => h) _ fun _ _ h => h.any
    intro _ s h
    apply h.weaken
    intro es hwithin
    apply hwithin.mono
    intro id
    by_cases hid : id = p.1
    · subst hid
      rw [Function.update_self, todoOf, if_neg hnot]
    · rw [Function.update_of_ne hid]
      exact todoOf_cons id

theorem kept_refreshQuestions (hhost : host.Secret bound) (plan : Plan)
    {pending : List (String × Json)} (hlisted : ∀ p ∈ pending, Listed host p)
    (hdistinct : (pending.map Prod.fst).Nodup) :
    Triple
      (Kept host bound (Within (todoOf ((plan.wanted.take maxDestinations).map
        (·.registrationId)) pending)))
      (forEach pending (refreshQuestion host plan))
      (fun _ => Kept host bound fun _ => True) (fun _ => Kept host bound fun _ => True) := by
  induction pending with
  | nil => exact Triple.pure fun _ h => h.any
  | cons p rest ih =>
    rw [List.map_cons, List.nodup_cons] at hdistinct
    apply Triple.bind
      (kept_refreshQuestion hhost plan (hlisted p List.mem_cons_self) hdistinct.1)
    intro _
    exact ih (fun q hq => hlisted q (List.mem_cons_of_mem p hq)) hdistinct.2

/-- What is left of the entries once those in `rest` have been compared. -/
def Comparing (host : Host) (pending : List (String × Json)) (entries rest es : List LedgerEntry) :
    Prop :=
  ∀ e ∈ es, e ∈ entries ∧ (e ∈ rest ∨
    ((pendingItem pending e.interactionId).any fun item => sameQuestion host e item) = true)

theorem Comparing.next {pending : List (String × Json)} {entries rest es : List LedgerEntry}
    {x : LedgerEntry} (h : Comparing host pending entries (x :: rest) es)
    (hx : x ∈ es → ((pendingItem pending x.interactionId).any fun item =>
      sameQuestion host x item) = true) : Comparing host pending entries rest es := by
  intro e he
  obtain ⟨hin, hor⟩ := h e he
  refine ⟨hin, ?_⟩
  cases hor with
  | inl hmem =>
    cases List.mem_cons.mp hmem with
    | inl heq =>
      subst heq
      exact .inr (hx he)
    | inr hmem => exact .inl hmem
  | inr hkeep => exact .inr hkeep

theorem kept_compare (pending : List (String × Json)) (entries rest : List LedgerEntry) :
    Triple (Kept host bound (Comparing host pending entries rest)) (dropStale host pending rest)
      (fun _ => Kept host bound (Comparing host pending entries []))
      (fun _ => Kept host bound fun _ => True) := by
  unfold dropStale
  induction rest with
  | nil => exact Triple.pure fun _ h => h
  | cons x rest ih =>
    rw [forEach]
    apply Triple.bind (Q := fun _ => Kept host bound (Comparing host pending entries rest))
    · split
      · rename_i hkeep
        exact Triple.pure fun s h => h.weaken fun es hes => hes.next fun _ => hkeep
      apply Triple.bind
        (Q := fun _ => Kept host bound (Comparing host pending entries (x :: rest)))
      · exact Triple.weaken ((kept_lasting _).clearEntry x) (fun _ h => h) (fun _ _ h => h)
          fun _ _ h => h.any
      intro _
      apply Triple.modify
      intro s h
      apply h.sub List.filter_sublist
      intro hes
      have hfew : Comparing host pending entries (x :: rest)
          (s.entries.filter (·.interactionId ≠ x.interactionId)) :=
        fun e he => hes e (List.mem_of_mem_filter he)
      apply hfew.next
      intro hmem
      exact absurd rfl (of_decide_eq_true (List.mem_filter.mp hmem).2)
    · exact fun _ => ih

/-- After the comparison, only entries are left whose question is pending as it was. -/
theorem kept_dropStale (pending : List (String × Json)) (entries : List LedgerEntry) :
    Triple (Kept host bound (· = entries)) (dropStale host pending entries)
      (fun _ => Kept host bound fun es => ∀ e ∈ es, e ∈ keptEntries host pending entries)
      (fun _ => Kept host bound fun _ => True) := by
  apply (kept_compare pending entries entries).weaken _ _ fun _ _ h => h
  · intro s h
    apply h.weaken
    intro es heq e he
    subst heq
    exact ⟨he, .inl he⟩
  · intro _ s h
    apply h.weaken
    intro es hes e he
    obtain ⟨hin, hor⟩ := hes e he
    cases hor with
    | inl hnil => cases hnil
    | inr hkeep => exact List.mem_filter.mpr ⟨hin, hkeep⟩

/-- For each question that is compared, the devices it has and the selected ones that it does not
have yet fit together. -/
def RoomFor (host : Host) (s : State) (input : Plan × List (String × Json)) : Prop :=
  ∀ e ∈ keptEntries host input.2 s.entries,
    e.interactionId ∈ (input.2.take maxInteractions).map Prod.fst →
      needed e.registrations ((input.1.wanted.take maxDestinations).map (·.registrationId)) ≤
        maxDestinations

instance (s : State) (input : Plan × List (String × Json)) : Decidable (RoomFor host s input) :=
  inferInstanceAs (Decidable (∀ e ∈ _, _ → _))

theorem kept_refreshWith (hhost : host.Secret bound) {s : State}
    (h : Kept host bound (fun _ => True) s) {input : Plan × List (String × Json)}
    (hinput : Input host input) (hroom : RoomFor host s input) :
    Kept host bound (fun _ => True) (refreshWith host input.1 input.2 s).2 := by
  obtain ⟨plan, pending⟩ := input
  obtain ⟨now, items, rfl⟩ := hinput
  have htriple : Triple (fun t => Kept host bound (· = s.entries) t ∧ t.entries = s.entries)
      (refreshWith host plan (pendingOf host now items))
      (fun _ => Kept host bound fun _ => True) (fun _ => Kept host bound fun _ => True) := by
    unfold refreshWith
    apply Triple.bind (Q := fun es t => Kept host bound (· = s.entries) t ∧ es = s.entries)
    · exact Triple.read fun t ht => ht
    intro es
    apply Triple.bind (Q := fun _ => Kept host bound fun es =>
      ∀ e ∈ es, e ∈ keptEntries host (pendingOf host now items) s.entries)
    · intro t ht
      rw [ht.2]
      exact kept_dropStale _ _ t ht.1
    intro _
    apply Triple.bind (Q := fun _ => Kept host bound fun _ => True)
    · have hlisted : ∀ p ∈ (pendingOf host now items).take maxInteractions, Listed host p :=
        fun p hp => listed_pendingOf now items p (List.mem_of_mem_take hp)
      have hdistinct : (((pendingOf host now items).take maxInteractions).map Prod.fst).Nodup := by
        rw [List.map_take]
        exact (nodup_pendingOf now items).take
      apply (kept_refreshQuestions hhost plan hlisted hdistinct).weaken _ (fun _ _ ht => ht)
        fun _ _ ht => ht
      intro t ht hd
      obtain ⟨hsound, hkept⟩ := ht hd
      refine ⟨hsound, ?_⟩
      intro e he
      unfold todoOf
      split
      · rename_i hmem
        exact hroom e (hkept e he) hmem
      have hlength := (hsound.entries.valid e he).length
      show (e.destinations.map _).length + 0 ≤ maxDestinations
      rw [List.length_map]
      exact hlength
    · intro _
      exact Keeps.bind (kept_lasting _).persist fun _ => Keeps.pure
  apply htriple.state
  exact ⟨fun hd => ⟨(h hd).1, rfl⟩, rfl⟩

theorem kept_claim (id : String) (b : Bool) : Keeps (Kept host bound fun _ => True) (claim id b) :=
  keeps_setEntry (minor_claim b) fun _ _ => trivial

theorem kept_release (id : String) : Keeps (Kept host bound fun _ => True) (release id) := by
  unfold release
  refine Keeps.bind (kept_claim id false) fun _ => ?_
  refine Keeps.bind (Keeps.attempt (kept_lasting _).persist fun stop => ?_) fun saved => ?_
  · split
    · exact Keeps.bind (kept_claim id true) fun _ => Keeps.raise
    · exact Keeps.raise
  · split
    · exact kept_claim id true
    · exact Keeps.pure

theorem kept_dispatch (e : LedgerEntry) (a : ActionRow) :
    Keeps (Kept host bound fun _ => True) (dispatch e a) := by
  unfold dispatch
  refine Keeps.bind (Keeps.modify fun s h hd => ?_) fun _ => ?_
  · obtain ⟨hs, hq⟩ := h hd
    exact ⟨⟨hs.entries, hs.stored, hs.passed⟩, hq⟩
  refine Keeps.bind (kept_lasting _).pause fun m => ?_
  split
  · exact Keeps.raise
  refine Keeps.bind ((kept_lasting _).clearEntry e) fun _ => ?_
  refine Keeps.bind (Keeps.modify fun s h => ?_) fun _ => ?_
  · exact h.sub List.filter_sublist fun _ => trivial
  · exact Keeps.bind (kept_lasting _).persist fun _ => Keeps.pure

theorem kept_reply (e : LedgerEntry) (d : Destination) (a : ActionRow) (userId : String) :
    Keeps (Kept host bound fun _ => True) (reply host e d a userId) := by
  unfold reply
  split
  · exact Keeps.raise
  refine Keeps.bind (kept_claim _ true) fun _ => ?_
  refine Keeps.bind (kept_lasting _).persist fun saved => ?_
  split
  · exact kept_claim _ false
  refine Keeps.bind (Keeps.attempt ((kept_lasting _).revalidate host e d userId)
    fun stop => ?_) fun confirmed => ?_
  · split
    · exact Keeps.bind (kept_release _) fun _ => Keeps.raise
    · exact Keeps.raise
  · split
    · exact kept_dispatch e a
    · exact kept_release _

theorem kept_onAction (event : ActionEvent) :
    Keeps (Kept host bound fun _ => True) (onAction host event) := by
  apply Keeps.of_state
  intro s hs
  unfold onAction
  rw [routine_state]
  refine Triple.state (P := Kept host bound fun _ => True) ?_ hs
  refine Keeps.bind Keeps.read fun ready => ?_
  split
  · split
    · exact Keeps.raise
    refine Keeps.bind (kept_lasting _).pause fun _ => Keeps.bind Keeps.read fun closed => ?_
    refine Keeps.bind Keeps.read fun entries => ?_
    split
    · exact Keeps.raise
    split
    · exact Keeps.raise
    refine Keeps.bind ((kept_lasting _).checkReply host _ _ _ _ event) fun admitted => ?_
    split
    · exact kept_reply _ _ _ _
    · exact Keeps.raise
  · exact Keeps.raise

theorem kept_startable : Startable host (Kept host bound fun _ => True) where
  toLasting := kept_lasting _
  moved := by
    intro s t h hentries hstored hdrawn hpassed _ hd
    obtain ⟨hs, hq⟩ := h (hdrawn ▸ hd)
    refine ⟨⟨?_, ?_, ?_⟩, trivial⟩
    · rw [hentries, hdrawn]
      exact hs.entries
    · rw [hstored, hdrawn]
      exact hs.stored
    · rw [hpassed]
      exact hs.passed
  cleared := fun _ h => h.sub (List.nil_sublist _) fun _ => trivial
  loads := by
    intro s es h hread hd
    obtain ⟨hs, hq⟩ := h hd
    refine ⟨⟨?_, hs.stored, hs.passed⟩, trivial⟩
    cases hs.stored with
    | inl hnull =>
      rw [hnull] at hread
      cases hread
      exact fit_nil
    | inr hsaved =>
      obtain ⟨saved, heq, _, hfit⟩ := hsaved
      rw [heq] at hread
      rw [normalise_ledgerValue_eq hread]
      exact hfit

/-- Where every refresh has room for the devices of its questions, every value that is saved loads
as it was saved, and so does what is in the store. -/
theorem State.saves_load {surroundings : Surroundings} {steps : List Step} {t : State}
    (hhost : host.Secret t.drawn)
    (hroom : Runs.Meets (next host) (Compares host (RoomFor host)) (State.initial surroundings)
      steps) (h : Runs.exec (next host) (State.initial surroundings) steps = some t) :
    (∀ value ∈ t.passed, ∃ es, value = ledgerValue es ∧
      normaliseLedger host.expiry value = some es) ∧
        (normaliseLedger host.expiry t.stored).isSome = true := by
  have hinitial : Kept host t.drawn (fun _ => True) (State.initial surroundings) := by
    intro _
    refine ⟨⟨fit_nil, .inl rfl, ?_⟩, trivial⟩
    intro value hvalue
    cases hvalue
  have hstep : ∀ s step s', Kept host t.drawn (fun _ => True) s →
      Compares host (RoomFor host) s step → next host s step = some s' →
        Kept host t.drawn (fun _ => True) s' := by
    intro s step s' hs hc hn
    exact kept_startable.next
      (fun input u hinput hu hfits => kept_refreshWith hhost hu hinput hfits) kept_onAction hs hc hn
  obtain ⟨hsound, _⟩ := Runs.invariant_of_meets hstep hinitial hroom h (Nat.le_refl _)
  refine ⟨hsound.passed, ?_⟩
  cases hsound.stored with
  | inl hnull =>
    rw [hnull]
    rfl
  | inr hsaved =>
    obtain ⟨es, heq, hlength, hfit⟩ := hsaved
    rw [heq, normalise_ledgerValue hfit.valid hfit.unshared hlength]
    rfl

end

theorem sampleHost_secret : sampleHost.Secret 16 where
  token := by decide +kernel
  clientRequestId := by decide +kernel
  token_inj := by decide +kernel
  clientRequestId_inj := by decide +kernel
  digest := by
    intro questions
    show isFingerprint (String.ofList (List.replicate 64 '0')) = true
    decide +kernel

theorem Host.Secret.mono {host : Host} {bound fewer : Nat} (h : host.Secret bound)
    (hle : fewer ≤ bound) : host.Secret fewer where
  token := fun k hk => h.token k (by omega)
  clientRequestId := fun k hk => h.clientRequestId k (by omega)
  token_inj := fun i hi j hj => h.token_inj i (by omega) j (by omega)
  clientRequestId_inj := fun i hi j hj => h.clientRequestId_inj i (by omega) j (by omega)
  digest := h.digest

def announced (registrations : List (Fin 16)) : List Step :=
  [.surround (sampleSurroundings true registrations),
    .start [.quiet, .quiet, .quiet, sampleListing, sampleFound registrations]]

def replacedOne : List Step :=
  let devices := (List.finRange 16).take 3
  announced (devices.eraseIdx 2) ++ [.surround (sampleSurroundings true (devices.eraseIdx 1)),
    .refresh [.quiet, sampleListing, sampleFound (devices.eraseIdx 1)]]

theorem State.saves_load_replaced :
    (Runs.exec (next sampleHost) (State.initial (sampleSurroundings true [])) replacedOne).any
        (fun t => t.drawn = 3 ∧ 3 ≤ t.passed.length) = true ∧
      ∀ t, Runs.exec (next sampleHost) (State.initial (sampleSurroundings true [])) replacedOne =
          some t →
        (∀ value ∈ t.passed, ∃ es, value = ledgerValue es ∧
          normaliseLedger sampleHost.expiry value = some es) ∧
            (normaliseLedger sampleHost.expiry t.stored).isSome = true := by
  have hroom : Runs.Meets (next sampleHost) (Compares sampleHost (RoomFor sampleHost))
      (State.initial (sampleSurroundings true [])) replacedOne := by
    decide +kernel
  have hrun : (Runs.exec (next sampleHost) (State.initial (sampleSurroundings true []))
      replacedOne).any (fun t => t.drawn = 3 ∧ 3 ≤ t.passed.length) = true := by
    decide +kernel
  refine ⟨hrun, ?_⟩
  intro t ht
  rw [ht] at hrun
  have hdrawn := (of_decide_eq_true hrun).1
  exact State.saves_load (sampleHost_secret.mono (by omega)) hroom ht

/-- Eight devices are replaced by others. The first of these joins the eight before they go, and
what is saved then does not load any more. -/
theorem State.saved_not_loading :
    ∃ t, Runs.exec (next sampleHost) (State.initial (sampleSurroundings true []))
        (announced [0, 1, 2, 3, 4, 5, 6, 7] ++
          [.surround (sampleSurroundings true [8, 9, 10, 11, 12, 13, 14, 15]),
            .refresh [.quiet, sampleListing, sampleFound [8, 9, 10, 11, 12, 13, 14, 15],
              { Moment.quiet with outcome := .crashed }]]) = some t ∧
      (∃ value ∈ t.passed, normaliseLedger sampleHost.expiry value = none) ∧
        normaliseLedger sampleHost.expiry t.stored = none := by
  have hrun : (Runs.exec (next sampleHost) (State.initial (sampleSurroundings true []))
      (announced [0, 1, 2, 3, 4, 5, 6, 7] ++
        [.surround (sampleSurroundings true [8, 9, 10, 11, 12, 13, 14, 15]),
          .refresh [.quiet, sampleListing, sampleFound [8, 9, 10, 11, 12, 13, 14, 15],
            { Moment.quiet with outcome := .crashed }]])).any
      (fun t => (∃ value ∈ t.passed, normaliseLedger sampleHost.expiry value = none) ∧
        normaliseLedger sampleHost.expiry t.stored = none) = true := by
    decide +kernel
  obtain ⟨t, ht, hnone⟩ := (Option.any_eq_true _ _).mp hrun
  exact ⟨t, ht, of_decide_eq_true hnone⟩

end CodexBridge.Questions
