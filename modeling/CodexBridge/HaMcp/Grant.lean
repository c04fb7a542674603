import CodexBridge.HaMcp.Shortcut
import CodexBridge.Library.Runs

/-! # The grant is never orphaned

Every refresh token and every server with an issued credential is known to the saved journal
and to the instance that has read it, so that the next disconnect finds them. An instance
without a record therefore knows that there are none.
-/

namespace CodexBridge.HaMcp

/-! ## What a record says -/

namespace Record

def Names (r : Record) (t : RefreshToken) : Prop :=
  r.matchesToken t = true ∧ (r.tokenId = none ∨ r.tokenId = some t.id)

/-- The record is of a grant whose access tokens the server `name` may have. -/
def Holds (r : Record) (name tokenId : String) : Prop :=
  r.serverName = name ∧ r.tokenId = some tokenId ∧ r.fingerprint ≠ none

def Issued (r : Record) (c : Credential) : Prop :=
  ∃ tokenId now, r.tokenId = some tokenId ∧ c = .access tokenId now

structure Sound (r : Record) : Prop where
  parses : r.parses = true
  current : ∀ c, r.fingerprint = some c → r.Issued c
  pending : ∀ c, r.pendingFingerprint = some c → r.Issued c

variable {r : Record}

theorem Sound.disconnecting (h : r.Sound) :
    ({ r with state := .disconnecting } : Record).Sound where
  parses := rfl
  current := h.current
  pending := h.pending

theorem fingerprint_of_digests (h : r.digests.isEmpty = true) : r.fingerprint = none := by
  unfold Record.digests at h
  cases hf : r.fingerprint with
  | none => rfl
  | some c =>
    rw [hf] at h
    cases hp : r.pendingFingerprint with
    | none =>
      rw [hp] at h
      simp at h
    | some d =>
      rw [hp] at h
      dsimp only at h
      split at h <;> simp at h

theorem Sound.digests (h : r.Sound) (c : Credential) (hc : c ∈ r.digests) : r.Issued c := by
  have hmem : some c = r.pendingFingerprint ∨ some c = r.fingerprint := by
    unfold Record.digests at hc
    have hfound : c ∈ [r.pendingFingerprint, r.fingerprint].filterMap id := by
      dsimp only at hc
      split at hc
      · exact List.mem_of_mem_take hc
      · exact hc
    rw [List.mem_filterMap] at hfound
    obtain ⟨x, hx, hxc⟩ := hfound
    rw [show x = some c from hxc] at hx
    simpa using hx
  cases hmem with
  | inl hp => exact h.pending c hp.symm
  | inr hf => exact h.current c hf.symm

end Record

/-- Requests carry access tokens, and a rotation stays with its refresh token. -/
def Call.Issued : Call → Prop
  | .add _ token => ∃ id now, token = .access id now
  | .replace _ expected token => ∃ id before now, expected = .access id before ∧
      token = .access id now
  | .remove _ expected => ∃ id now, expected = .access id now

namespace World

structure Known (w : World) (P : Record → Prop) : Prop where
  saved : ∃ r, w.saved = some r ∧ P r
  read : ∀ m, w.memory = some m → m.loaded = true → ∃ r, m.record = some r ∧ P r

structure Kept (w : World) : Prop where
  single : w.tokens.length ≤ 1
  /-- A restart finds the owner and the server of the token. -/
  found : ∀ t ∈ w.tokens, ∃ r, w.saved = some r ∧ r.parses = true ∧ r.ownerId = t.userId ∧
    t.clientName = tokenName r.serverName
  revoked : ∀ smooth, w.returned = some smooth → w.tokens = []
  /-- The journal is empty only when the App has no server with an issued credential. -/
  journalled : ∀ name s id now, w.servers.get? name = some s → s.bearer = some (.access id now) →
    ∃ r, w.saved = some r ∧ r.serverName = name ∧ r.tokenId = some id
  emptied : w.returned = some true → w.saved = none

/-- A server that the shortcut's request removes has the fixed URL and a credential of the
grant in the journal. -/
def Removes (w : World) (step : Step) (t : World) : Prop :=
  (∀ name server, step ≠ .edit name server) → ∀ name s, w.servers.get? name = some s →
    t.servers.get? name = none → s.url = FIXED_URL ∧
      ∃ r id now, w.saved = some r ∧ r.serverName = name ∧ r.tokenId = some id ∧
        s.bearer = some (.access id now)

def leadsTo (name : String) (token : Credential) (r : Record) : Bool :=
  r.serverName = name && r.tokenId.isSome && r.tokenId = token.tokenId? && r.fingerprint.isSome

/-- A late request adds no server that the journal does not name any more, a smooth disconnect
meets no server with another credential, and the save that empties the journal is not cancelled
before it took effect. -/
def Careful (w : World) : Step → Bool
  | .serve i =>
    match w.late[i]? with
    | some (.add name token) => w.saved.any (leadsTo name token) &&
        w.memory.all fun m => !m.loaded || m.record.any (leadsTo name token)
    | _ => true
  | .request .answered =>
    match w.memory with
    | some ⟨some r, _, some (.removing (c :: _) _ true)⟩ =>
      (w.servers.get? r.serverName).all fun s => s.bound FIXED_URL c
    | _ => true
  | .save (.cancelled false) _ =>
    match w.memory with
    | some ⟨_, _, some (.emptying _ _)⟩ => false
    | _ => true
  | _ => true

structure Base (w : World) : Prop where
  single : w.tokens.length ≤ 1
  tokens : ∀ t ∈ w.tokens, w.Known fun r => r.Names t
  servers : ∀ name s id now, w.servers.get? name = some s → s.bearer = some (.access id now) →
    w.Known fun r => r.Holds name id
  calls : ∀ c ∈ w.late, c.Issued
  journal : ∀ r, w.saved = some r → r.Sound
  memory : ∀ m r, w.memory = some m → m.record = some r → r.Sound

def Waits (w : World) (record : Option Record) : Operation → Prop
  | .savingPreparing => w.tokens = [] ∧ ∃ o n, record = some (.preparing o n)
  | .creatingToken => w.tokens = [] ∧ w.saved = record ∧ ∃ o n, record = some (.preparing o n)
  | .savingToken => ∃ r, record = some r ∧ r.tokenId.isSome = true
  | .adding => w.saved = record ∧ ∃ r, record = some r ∧ r.fingerprint.isSome = true
  | .savingCreating | .selecting | .savingConnected | .savingRotating | .replacing
  | .savingRotated | .savingRetry => ∃ r, record = some r ∧ r.fingerprint.isSome = true
  | .findingOwner => ∃ r, record = some r ∧ r.tokenId = none
  | .savingDisconnecting => w.tokens = [] ∧ ∃ r, record = some r
  | .deselecting pending smooth => w.tokens = [] ∧ (∃ r, record = some r) ∧
      (pending = true → smooth = false)
  | .removing digests pending smooth => w.tokens = [] ∧
      (∃ r, record = some r ∧ ∀ c ∈ digests, r.Issued c) ∧ (pending = true → smooth = false)
  | .emptying r _ => record = none ∧ r.Sound

structure Staged (w : World) (m : Memory) : Prop where
  loaded : m.operation ≠ none → m.loaded = true
  idle : m.operation = none → m.loaded = true → m.record = none → w.saved = none
  waits : ∀ op, m.operation = some op → w.Waits m.record op

structure Inv (w : World) : Prop where
  base : w.Base
  staged : ∀ m, w.memory = some m → w.Staged m
  revoked : ∀ smooth, w.returned = some smooth → w.tokens = []
  emptied : w.returned = some true → w.saved = none

theorem Inv.kept {w : World} (h : w.Inv) : w.Kept where
  single := h.base.single
  found t ht := by
    obtain ⟨r, hr, hnames⟩ := (h.base.tokens t ht).saved
    have hm := hnames.1
    unfold Record.matchesToken at hm
    rw [Bool.and_eq_true, decide_eq_true_eq, decide_eq_true_eq] at hm
    exact ⟨r, hr, (h.base.journal r hr).parses, hm.1.symm, hm.2⟩
  revoked := h.revoked
  journalled name s id now hs hb := by
    obtain ⟨r, hr, hname, hid, _⟩ := (h.base.servers name s id now hs hb).saved
    exact ⟨r, hr, hname, hid⟩
  emptied := h.emptied

theorem inv_initial : initial.Inv where
  base := {
    single := Nat.zero_le 1
    tokens := fun t ht => by cases ht
    servers := fun name s id now hs => by cases hs
    calls := fun c hc => by cases hc
    journal := fun r hr => by cases hr
    memory := fun m r hm => by cases hm }
  staged := fun m hm => by cases hm
  revoked := fun smooth hr => by cases hr
  emptied := fun hr => by cases hr

section

variable {w t : World} {m : Memory} {r r' : Record}

/-- A record that is written, changed, or given up with the instance still knows what it
knew. -/
theorem Known.carry {P Q : Record → Prop} (h : w.Known P) (hm : w.memory = some m)
    (hl : m.loaded = true) (hr : m.record = some r)
    (hsaved : (t.saved = w.saved ∧ ∀ x, P x → Q x) ∨ t.saved = some r) (hPQ : P r → Q r)
    (hmemory : ∀ m', t.memory = some m' → ∃ r', m'.record = some r' ∧ (P r → Q r')) :
    t.Known Q := by
  obtain ⟨x, hx, hP⟩ := h.read m hm hl
  rw [hr] at hx
  cases hx
  constructor
  · cases hsaved with
    | inl hsame =>
      obtain ⟨y, hy, hPy⟩ := h.saved
      exact ⟨y, hsame.1.trans hy, hsame.2 y hPy⟩
    | inr hs => exact ⟨r, hs, hPQ hP⟩
  · intro m' hm' _
    obtain ⟨r', hr', hQ⟩ := hmemory m' hm'
    exact ⟨r', hr', hQ hP⟩

theorem Base.nothing (h : w.Base) (hm : w.memory = some m) (hl : m.loaded = true)
    (hr : m.record = none) : w.tokens = [] ∧
      ∀ name s id now, w.servers.get? name = some s → s.bearer ≠ some (.access id now) := by
  constructor
  · apply List.eq_nil_iff_forall_not_mem.mpr
    intro x hx
    obtain ⟨y, hy, _⟩ := (h.tokens x hx).read m hm hl
    rw [hr] at hy
    cases hy
  · intro name s id now hs hb
    obtain ⟨y, hy, _⟩ := (h.servers name s id now hs hb).read m hm hl
    rw [hr] at hy
    cases hy

theorem Base.carry (h : w.Base) (hm : w.memory = some m) (hl : m.loaded = true)
    (hr : m.record = some r) (htokens : ∀ x ∈ t.tokens, x ∈ w.tokens)
    (hsingle : t.tokens.length ≤ 1) (hservers : t.servers = w.servers) (hlate : t.late = w.late)
    (hsaved : t.saved = w.saved ∨ t.saved = some r)
    (hmemory : ∀ m', t.memory = some m' → m'.record = some r')
    (hnames : ∀ x ∈ w.tokens, r.Names x → r'.Names x)
    (hholds : ∀ name id, r.Holds name id → r'.Holds name id) (hsound : r'.Sound) : t.Base where
  single := hsingle
  tokens x hx := by
    have hx' := htokens x hx
    refine (h.tokens x hx').carry hm hl hr ?_ (fun hP => hP) ?_
    · cases hsaved with
      | inl hs => exact Or.inl ⟨hs, fun _ hP => hP⟩
      | inr hs => exact Or.inr hs
    · intro m' hm'
      exact ⟨r', hmemory m' hm', hnames x hx'⟩
  servers name s id now hs hb := by
    rw [hservers] at hs
    refine (h.servers name s id now hs hb).carry hm hl hr ?_ (fun hP => hP) ?_
    · cases hsaved with
      | inl hs => exact Or.inl ⟨hs, fun _ hP => hP⟩
      | inr hs => exact Or.inr hs
    · intro m' hm'
      exact ⟨r', hmemory m' hm', hholds name id⟩
  calls := by
    rw [hlate]
    exact h.calls
  journal x hx := by
    cases hsaved with
    | inl hs => exact h.journal x (hs.symm.trans hx)
    | inr hs =>
      rw [hs] at hx
      cases hx
      exact h.memory m r hm hr
  memory m' x hm' hx := by
    rw [hmemory m' hm'] at hx
    cases hx
    exact hsound

/-- Nothing is left, and the instance without a record may forget the journal. -/
theorem Base.clear (h : w.Base) (htokens : t.tokens = []) (hservers : t.servers = w.servers)
    (hnone : ∀ name s id now, w.servers.get? name = some s → s.bearer ≠ some (.access id now))
    (hlate : t.late = w.late) (hsaved : ∀ x, t.saved = some x → x.Sound)
    (hmemory : ∀ m' x, t.memory = some m' → m'.record = some x → x.Sound) : t.Base where
  single := by
    rw [htokens]
    exact Nat.zero_le 1
  tokens x hx := by
    rw [htokens] at hx
    cases hx
  servers name s id now hs hb := by
    rw [hservers] at hs
    exact absurd hb (hnone name s id now hs)
  calls := by
    rw [hlate]
    exact h.calls
  journal := hsaved
  memory := hmemory

theorem Base.withReturned (h : w.Base) (returned : Option Bool) :
    Base { w with returned := returned } where
  single := h.single
  tokens x hx := ⟨(h.tokens x hx).saved, (h.tokens x hx).read⟩
  servers name s id now hs hb :=
    ⟨(h.servers name s id now hs hb).saved, (h.servers name s id now hs hb).read⟩
  calls := h.calls
  journal := h.journal
  memory := h.memory

section

variable (h : w.Base) (hm : w.memory = some m) (hl : m.loaded = true) (hr : m.record = some r)

include h hm hl hr

theorem Base.write (o : Outcome) : (w.write (some r) o).Base := by
  unfold World.write
  split
  · refine h.carry hm hl hr (fun _ hx => hx) h.single rfl rfl (Or.inr rfl) ?_
      (fun _ _ hn => hn) (fun _ _ hh => hh) (h.memory m r hm hr)
    intro m' hm'
    rw [hm] at hm'
    cases hm'
    exact hr
  · exact h

theorem Base.enter (op : Operation) (hnames : ∀ x ∈ w.tokens, r.Names x → r'.Names x)
    (hholds : ∀ name id, r.Holds name id → r'.Holds name id) (hsound : r'.Sound) :
    (w.enter (some r') op).Base := by
  refine h.carry hm hl hr (fun _ hx => hx) h.single rfl rfl (Or.inl rfl) ?_ hnames hholds hsound
  intro m' hm'
  cases hm'
  rfl

theorem Base.leave : (w.leave (some r)).Base := by
  refine h.carry hm hl hr (fun _ hx => hx) h.single rfl rfl (Or.inl rfl) ?_
    (fun _ _ hn => hn) (fun _ _ hh => hh) (h.memory m r hm hr)
  intro m' hm'
  cases hm'
  rfl

end

theorem Inv.of_enter {record : Option Record} {op : Operation} (hb : (w.enter record op).Base)
    (hw : (w.enter record op).Waits record op) : (w.enter record op).Inv where
  base := hb
  staged m' hm' := by
    cases hm'
    refine ⟨fun _ => rfl, ?_, ?_⟩
    · intro hop
      cases hop
    · intro op' hop
      cases hop
      exact hw
  revoked smooth hr := by cases hr
  emptied hr := by cases hr

theorem Inv.of_leave {record : Option Record} (hb : (w.leave record).Base)
    (hidle : record = none → w.saved = none) : (w.leave record).Inv where
  base := hb
  staged m' hm' := by
    cases hm'
    refine ⟨fun hop => absurd rfl hop, fun _ _ hr => hidle hr, ?_⟩
    intro op hop
    cases hop
  revoked smooth hr := by cases hr
  emptied hr := by cases hr

theorem Inv.of_finish {record : Option Record} {smooth : Bool} (hb : (w.leave record).Base)
    (htokens : w.tokens = []) (hidle : record = none → w.saved = none)
    (hsmooth : smooth = true → w.saved = none) : (w.finish record smooth).Inv where
  base := hb.withReturned _
  staged m' hm' := by
    cases hm'
    refine ⟨fun hop => absurd rfl hop, fun _ _ hr => hidle hr, ?_⟩
    intro op hop
    cases hop
  revoked _ _ := htokens
  emptied hr := by
    cases hr
    exact hsmooth rfl

section

variable (h : w.Base) (hm : w.memory = some m) (hl : m.loaded = true)

include h hm hl

theorem Base.filtered (hr : m.record = some r) (keep : RefreshToken → Bool) (op : Operation) :
    ({ w with tokens := w.tokens.filter keep }.enter
      (some { r with state := .disconnecting }) op).Base := by
  have hmemory : ∀ m', ({ w with tokens := w.tokens.filter keep }.enter
      (some { r with state := .disconnecting }) op).memory = some m' →
        m'.record = some { r with state := .disconnecting } := by
    intro m' hm'
    cases hm'
    rfl
  refine h.carry hm hl hr ?_ ?_ rfl rfl (Or.inl rfl) hmemory (fun _ _ hn => hn)
    (fun _ _ hh => hh) (h.memory m r hm hr).disconnecting
  · intro x hx
    exact (List.mem_filter.mp hx).1
  · exact Nat.le_trans (List.length_filter_le _ _) h.single

theorem Base.disconnectLocked (hidle : m.record = none → w.saved = none) :
    (w.disconnectLocked m.record).Inv := by
  cases hr : m.record with
  | none =>
    obtain ⟨htokens, hservers⟩ := h.nothing hm hl hr
    have hsaved := hidle hr
    refine Inv.of_finish ?_ htokens (fun _ => hsaved) (fun _ => hsaved)
    refine h.clear htokens rfl hservers rfl h.journal ?_
    intro m' x hm' hx
    cases hm'
    cases hx
  | some r =>
    have hsound := h.memory m r hm hr
    unfold World.disconnectLocked
    dsimp only
    split
    · rename_i id hid
      have hfilter : (w.tokens.filter fun x => !(x.id = id && r.matchesToken x)) = [] := by
        rw [List.filter_eq_nil_iff]
        intro x hx
        obtain ⟨y, hy, hmatches, hnamed⟩ := (h.tokens x hx).read m hm hl
        rw [hr] at hy
        cases hy
        rw [hid] at hnamed
        cases hnamed with
        | inl hno => cases hno
        | inr heq =>
          have hxid : x.id = id := (Option.some.inj heq).symm
          rw [hxid, hmatches]
          simp
      exact Inv.of_enter (h.filtered hm hl hr _ _) ⟨hfilter, _, rfl⟩
    · rename_i hid
      refine Inv.of_enter (h.enter hm hl hr _ (fun _ _ hn => hn) (fun _ _ hh => hh) hsound) ?_
      exact ⟨r, rfl, hid⟩

section

variable (hr : m.record = some r)

include hr

theorem Base.fails : (w.disconnectLocked (some r)).Inv := by
  have hd := h.disconnectLocked hm hl (fun hn => by
    rw [hr] at hn
    cases hn)
  rw [hr] at hd
  exact hd

theorem Base.ownerFound (o : Outcome) : (w.ownerFound r o).Inv := by
  have hleave := Inv.of_leave (h.leave hm hl hr) (fun hn => by cases hn)
  unfold World.ownerFound
  cases o with
  | done =>
    have hfilter : (w.tokens.filter fun x => !r.matchesToken x) = [] := by
      rw [List.filter_eq_nil_iff]
      intro x hx
      obtain ⟨y, hy, hmatches, _⟩ := (h.tokens x hx).read m hm hl
      rw [hr] at hy
      cases hy
      rw [hmatches]
      simp
    exact Inv.of_enter (h.filtered hm hl hr _ _) ⟨hfilter, _, rfl⟩
  | failed effective => exact hleave
  | cancelled effective => exact hleave

theorem Base.removalEnded (htokens : w.tokens = []) {pending smooth : Bool}
    (hps : pending = true → smooth = false)
    (hgone : pending = false → ∀ name s id now, w.servers.get? name = some s →
      s.bearer ≠ some (.access id now)) : (w.removalEnded r pending smooth).Inv := by
  unfold World.removalEnded
  cases pending with
  | true =>
    rw [if_pos rfl]
    refine Inv.of_finish (h.leave hm hl hr) htokens (fun hn => by cases hn) ?_
    intro hs
    rw [hps rfl] at hs
    cases hs
  | false =>
    rw [if_neg Bool.false_ne_true]
    refine Inv.of_enter ?_ ⟨rfl, h.memory m r hm hr⟩
    refine h.clear htokens rfl (hgone rfl) rfl h.journal ?_
    intro m' x hm' hx
    cases hm'
    cases hx

theorem Base.gone_of_digests (hd : r.fingerprint = none) (name : String)
    (s : Server) (id : String) (now : Nat) (hs : w.servers.get? name = some s) :
    s.bearer ≠ some (.access id now) := by
  intro hb
  obtain ⟨y, hy, _, _, hfp⟩ := (h.servers name s id now hs hb).read m hm hl
  rw [hr] at hy
  cases hy
  exact hfp hd

theorem Base.gone_of_absent (habsent : w.servers.get? r.serverName = none) (name : String)
    (s : Server) (id : String) (now : Nat) (hs : w.servers.get? name = some s) :
    s.bearer ≠ some (.access id now) := by
  intro hb
  obtain ⟨y, hy, hname, _⟩ := (h.servers name s id now hs hb).read m hm hl
  rw [hr] at hy
  cases hy
  rw [hname, hs] at habsent
  cases habsent

theorem Base.deselected (htokens : w.tokens = []) {pending smooth : Bool}
    (hps : pending = true → smooth = false) (supported : Bool) :
    (w.deselected r pending smooth supported).Inv := by
  unfold World.deselected
  split
  · rename_i hempty
    exact h.removalEnded hm hl hr htokens hps
      (fun _ => h.gone_of_digests hm hl hr (Record.fingerprint_of_digests hempty))
  split
  · refine h.removalEnded hm hl hr htokens (fun _ => rfl) ?_
    intro hp
    cases hp
  · have hsound := h.memory m r hm hr
    refine Inv.of_enter (h.enter hm hl hr _ (fun _ _ hn => hn) (fun _ _ hh => hh) hsound) ?_
    exact ⟨htokens, ⟨r, rfl, hsound.digests⟩, hps⟩

end

end

theorem bound_iff {s : Server} {url : String} {c : Credential} :
    s.bound url c = true ↔ s.url = url ∧ s.bearer = some c := by
  unfold Server.bound
  rw [Bool.and_eq_true, decide_eq_true_eq, decide_eq_true_eq]

theorem handle_ok {servers new : Dict String Server} {call : Call}
    (h : handle servers call = .ok new) :
    (∃ name token, call = .add name token ∧ new = servers.set name ⟨FIXED_URL, some token⟩) ∨
    (∃ name expected token s, call = .replace name expected token ∧
      servers.get? name = some s ∧ s.bound FIXED_URL expected = true ∧
        new = servers.set name { s with bearer := some token }) ∨
    ∃ name expected s, call = .remove name expected ∧ servers.get? name = some s ∧
      s.bound FIXED_URL expected = true ∧ new = servers.erase name := by
  cases call with
  | add name token =>
    unfold handle at h
    dsimp only at h
    split at h
    · cases h
    · cases h
      exact Or.inl ⟨name, token, rfl, rfl⟩
  | replace name expected token =>
    unfold handle at h
    dsimp only at h
    split at h
    · cases h
    rename_i s hs
    split at h
    · rename_i hb
      cases h
      exact Or.inr (Or.inl ⟨name, expected, token, s, rfl, hs, hb, rfl⟩)
    · cases h
  | remove name expected =>
    unfold handle at h
    dsimp only at h
    split at h
    · cases h
    rename_i s hs
    split at h
    · rename_i hb
      cases h
      exact Or.inr (Or.inr ⟨name, expected, s, rfl, hs, hb, rfl⟩)
    · cases h

theorem Base.withServers (h : w.Base) (servers : Dict String Server)
    (hknown : ∀ name s id now, servers.get? name = some s → s.bearer = some (.access id now) →
      w.Known fun r => r.Holds name id) : Base { w with servers := servers } where
  single := h.single
  tokens x hx := ⟨(h.tokens x hx).saved, (h.tokens x hx).read⟩
  servers name s id now hs hb := ⟨(hknown name s id now hs hb).saved,
    (hknown name s id now hs hb).read⟩
  calls := h.calls
  journal := h.journal
  memory := h.memory

def Led (w : World) (call : Call) : Prop :=
  ∀ name id now, call = .add name (.access id now) → w.Known fun r => r.Holds name id

section

variable (h : w.Base) {call : Call} (hissued : call.Issued) (hled : w.Led call)

include h hissued hled

theorem Base.serve :
    (w.serve call).Base := by
  unfold World.serve
  split
  · rename_i servers hok
    apply h.withServers
    intro name s id now hs hb
    rcases handle_ok hok with ⟨n, token, hcall, rfl⟩ | ⟨n, expected, token, old, hcall, hold, hbd,
      rfl⟩
      | ⟨n, expected, old, hcall, hold, hbd, rfl⟩
    · rw [Dict.get?_set] at hs
      split at hs
      · rename_i hn
        cases hs
        cases hb
        exact hled name id now (by rw [hcall, hn])
      · exact h.servers name s id now hs hb
    · rw [Dict.get?_set] at hs
      split at hs
      · rename_i hn
        cases hs
        rw [hcall] at hissued
        obtain ⟨id', before, now', hexpected, htoken⟩ := hissued
        rw [htoken] at hb
        cases hb
        rw [hn]
        exact h.servers n old id before hold ((bound_iff.mp hbd).2.trans (by rw [hexpected]))
      · exact h.servers name s id now hs hb
    · rw [Dict.get?_erase] at hs
      split at hs
      · cases hs
      · exact h.servers name s id now hs hb
  · exact h

theorem Base.effect (effect : Effect) : (w.effect call effect).Base := by
  cases effect with
  | never => exact h
  | now => exact h.serve hissued hled
  | later =>
    refine ⟨h.single, ?_, ?_, ?_, h.journal, h.memory⟩
    · intro x hx
      exact ⟨(h.tokens x hx).saved, (h.tokens x hx).read⟩
    · intro name s id now hs hb
      exact ⟨(h.servers name s id now hs hb).saved, (h.servers name s id now hs hb).read⟩
    · intro c hc
      cases List.mem_append.mp hc with
      | inl hold => exact h.calls c hold
      | inr hnew =>
        rw [List.mem_singleton.mp hnew]
        exact hissued

theorem Base.request (reply : Reply) : (w.request call reply).Base := by
  cases reply with
  | answered => exact h.serve hissued hled
  | refused p effective =>
    unfold World.request
    dsimp only
    split
    · exact h.serve hissued hled
    · exact h
  | lost effect => exact h.effect hissued hled effect
  | cancelled effect => exact h.effect hissued hled effect

end

/-- A request leaves all but the App alone. -/
structure OnlyApp (w t : World) : Prop where
  tokens : t.tokens = w.tokens
  saved : t.saved = w.saved
  memory : t.memory = w.memory
  returned : t.returned = w.returned

theorem onlyApp_serve (w : World) (call : Call) : OnlyApp w (w.serve call) := by
  unfold World.serve
  split <;> exact ⟨rfl, rfl, rfl, rfl⟩

theorem onlyApp_effect (w : World) (call : Call) (effect : Effect) :
    OnlyApp w (w.effect call effect) := by
  cases effect with
  | never => exact ⟨rfl, rfl, rfl, rfl⟩
  | now => exact onlyApp_serve w call
  | later => exact ⟨rfl, rfl, rfl, rfl⟩

theorem onlyApp_request (w : World) (call : Call) (reply : Reply) :
    OnlyApp w (w.request call reply) := by
  cases reply with
  | answered => exact onlyApp_serve w call
  | refused p effective =>
    unfold World.request
    dsimp only
    split
    · exact onlyApp_serve w call
    · exact ⟨rfl, rfl, rfl, rfl⟩
  | lost effect => exact onlyApp_effect w call effect
  | cancelled effect => exact onlyApp_effect w call effect

theorem gone_of_answer {name : String} {c : Credential} {reply : Reply}
    (hrefusal : ∀ p effective, reply = .refused p effective → refusal p = true)
    (h : w.answer (.remove name c) reply = .ok ∨
      ∃ code, w.answer (.remove name c) reply = .error code ∧ ABSENT.contains code = true) :
    (w.request (.remove name c) reply).servers.get? name = none := by
  cases reply with
  | answered =>
    unfold World.answer at h
    unfold World.request World.serve
    dsimp only at h ⊢
    cases hh : handle w.servers (.remove name c) with
    | ok new =>
      rcases handle_ok hh with ⟨n, token, hcall, _⟩ | ⟨n, expected, token, s, hcall, _⟩
        | ⟨n, expected, s, hcall, _, _, rfl⟩
      · cases hcall
      · cases hcall
      · cases hcall
        show (w.servers.erase name).get? name = none
        rw [Dict.get?_erase, if_pos rfl]
    | error p =>
      rw [hh] at h
      unfold handle at hh
      dsimp only at hh
      split at hh
      · assumption
      split at hh
      · cases hh
      cases hh
      rcases h with hok | ⟨code, hcode, habsent⟩
      · cases hok
      · cases hcode
        exact absurd habsent (by decide +kernel)
  | refused p effective =>
    have hr := hrefusal p effective rfl
    unfold refusal at hr
    rcases h with hok | ⟨code, hcode, habsent⟩
    · cases hok
    cases hcode
    rw [habsent] at hr
    cases hr
  | lost effect =>
    rcases h with hok | ⟨code, hcode, _⟩
    · cases hok
    · cases hcode
  | cancelled effect =>
    rcases h with hok | ⟨code, hcode, _⟩
    · cases hok
    · cases hcode

theorem answer_ne_bindingConflict (w : World) (call : Call) (reply : Reply) :
    w.answer call reply ≠ .error BINDING_CONFLICT := by
  intro h
  cases reply with
  | answered =>
    unfold World.answer at h
    dsimp only at h
    split at h
    · cases h
    · rename_i p _
      exact p.kept_ne_bindingConflict (Answer.error.inj h)
  | refused p effective => exact p.kept_ne_bindingConflict (Answer.error.inj h)
  | lost effect => cases h
  | cancelled effect => cases h

theorem answer_of_bound {name : String} {c : Credential}
    (h : (w.servers.get? name).all (fun s => s.bound FIXED_URL c) = true) :
    w.answer (.remove name c) .answered = .ok ∨
      ∃ code, w.answer (.remove name c) .answered = .error code ∧ ABSENT.contains code = true := by
  unfold World.answer handle
  dsimp only
  cases hs : w.servers.get? name with
  | none => exact Or.inr ⟨_, rfl, by decide +kernel⟩
  | some s =>
    rw [hs] at h
    have hb : s.bound FIXED_URL c = true := h
    dsimp only
    rw [if_pos hb]
    exact Or.inl rfl

theorem Base.removed (h : w.Base) (hm : w.memory = some m) (hl : m.loaded = true)
    (hr : m.record = some r) (htokens : w.tokens = []) {c : Credential}
    {rest : List Credential} (hc : r.Issued c) {pending smooth : Bool} {reply : Reply}
    (hps : pending = true → smooth = false)
    (hrefusal : ∀ p effective, reply = .refused p effective → refusal p = true)
    (hcareful : smooth = true → reply = .answered →
      (w.servers.get? r.serverName).all (fun s => s.bound FIXED_URL c) = true) :
    (w.removed r c rest pending smooth reply).Inv := by
  have honly := onlyApp_request w (.remove r.serverName c) reply
  have hissued : Call.Issued (.remove r.serverName c) := by
    obtain ⟨id, now, _, hnow⟩ := hc
    exact ⟨id, now, hnow⟩
  have hled : w.Led (.remove r.serverName c) := by
    intro name id now hcall
    cases hcall
  have hb := h.request hissued hled reply
  have hm' := honly.memory.trans hm
  have htokens' := honly.tokens.trans htokens
  have hgone := fun ha => hb.gone_of_absent hm' hl hr (gone_of_answer hrefusal ha)
  unfold World.removed
  dsimp only
  cases ha : w.answer (.remove r.serverName c) reply with
  | ok => exact hb.removalEnded hm' hl hr htokens' hps fun _ => hgone (Or.inl ha)
  | error code =>
    dsimp only
    cases habsent : ABSENT.contains code with
    | true =>
      rw [if_pos rfl]
      exact hb.removalEnded hm' hl hr htokens' hps
        fun _ => hgone (Or.inr ⟨code, ha, habsent⟩)
    | false =>
      have hne : code ≠ BINDING_CONFLICT := fun he =>
        answer_ne_bindingConflict w _ reply (he ▸ ha)
      rw [if_neg Bool.false_ne_true, if_neg hne]
      refine hb.removalEnded hm' hl hr htokens' (fun _ => ?_) (fun hp => by cases hp)
      cases hsm : smooth with
      | false => rfl
      | true =>
        rw [Bool.true_and, decide_eq_false_iff_not]
        intro hans
        rw [hans] at ha
        rcases answer_of_bound (hcareful hsm hans) with hok | ⟨code', hcode, habs⟩
        · rw [ha] at hok
          cases hok
        rw [ha] at hcode
        cases hcode
        rw [habsent] at habs
        cases habs
  | failed => exact hb.removalEnded hm' hl hr htokens' (fun _ => rfl) (fun hp => by cases hp)
  | cancelled => exact Inv.of_leave (hb.leave hm' hl hr) (fun hn => by cases hn)

end

end World

end CodexBridge.HaMcp
