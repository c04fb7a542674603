import CodexBridge.Browser.Broker

/-! # The slot of the broker

One slot carries the argument: at most one session is registered or being torn down. A
process is started for the session in the slot, so that neither a reply nor a termination
can reach another one.
-/

namespace CodexBridge.Browser

/-! ## What a stage says -/

namespace Stage

def active : Stage → Option String
  | .executing id | .sending id _ | .reading id _ | .stopping id _ | .terminating id _
  | .raised id _ | .answered id _ | .publishing id _ | .finishing id => some id
  | .expiring | .admitting | .closing _ _ _ _ => none

def unsent : Stage → Option String
  | .executing id | .sending id _ => some id
  | _ => none

def uses : Stage → Option (String × Nat)
  | .sending id p | .reading id p | .stopping id p => some (id, p)
  | _ => none

def dooms : Stage → Option Nat
  | .closing (.terminating p) _ _ _ | .terminating _ p => p
  | _ => none

def closes : Stage → Option (String × List String)
  | .closing _ id rest _ => some (id, rest)
  | _ => none

/-- The session whose process a call is about to take from the client. -/
def guards : Stage → Option String
  | .closing .stopping id _ _ => some id
  | _ => none

theorem active_of_unsent {s : Stage} {id : String} (h : s.unsent = some id) :
    s.active = some id := by
  cases s <;> simp_all [unsent, active]

theorem closes_of_guards {s : Stage} {id : String} (h : s.guards = some id) :
    ∃ rest, s.closes = some (id, rest) := by
  cases s with
  | closing phase session rest after =>
    cases phase with
    | stopping =>
      refine ⟨rest, ?_⟩
      simpa [guards, closes] using h
    | terminating p => cases h
    | discarding => cases h
  | _ => cases h

end Stage

namespace World

def Registered (w : World) (id : String) : Prop := ∃ s, w.sessions.get? id = some s

/-! ## The registry and the calls -/

structure Books (w : World) : Prop where
  slot : w.sessions.size + w.tearingDown.length ≤ 1
  closes : ∀ c call id rest, w.calls.get? c = some call → call.stage.closes = some (id, rest) →
    rest = [] ∧ w.tearingDown = [id]
  closer : ∀ c c' call call' x y, w.calls.get? c = some call → w.calls.get? c' = some call' →
    call.stage.closes = some x → call'.stage.closes = some y → c = c'
  unsent : ∀ c call id, w.calls.get? c = some call → call.stage.unsent = some id → w.Registered id
  held : ∀ c call id s, w.calls.get? c = some call → call.stage.active = some id →
    w.sessions.get? id = some s → s.busy = true ∧ s.owner = call.owner
  once : ∀ c c' call call' id, w.calls.get? c = some call → w.calls.get? c' = some call' →
    call.stage.active = some id → call'.stage.active = some id → c = c'
  registered : ∀ id s, w.sessions.get? id = some s → id ∈ w.drawn
  active : ∀ c call id, w.calls.get? c = some call → call.stage.active = some id → id ∈ w.drawn

def CallChanges (w t : World) (c : Nat) (new : Option Call) : Prop :=
  ∀ c', t.calls.get? c' = if c' = c then new else w.calls.get? c'

theorem callChanges_setStage (w : World) (c : Nat) (call : Call) (stage : Stage) :
    CallChanges w (w.setStage c call stage) c (some { call with stage := stage }) := by
  intro c'
  exact Dict.get?_set _ _ _ _

theorem callChanges_endCall (w : World) (c : Nat) : CallChanges w (w.endCall c) c none := by
  intro c'
  exact Dict.get?_erase _ _ _

section

variable {w t : World} {c : Nat} {call : Call} {new : Option Call}

theorem CallChanges.cases (h : CallChanges w t c new) {c' : Nat} {call' : Call}
    (hc : t.calls.get? c' = some call') :
    (c' = c ∧ new = some call') ∨ (c' ≠ c ∧ w.calls.get? c' = some call') := by
  rw [h c'] at hc
  by_cases he : c' = c
  · rw [if_pos he] at hc
    exact Or.inl ⟨he, hc⟩
  · rw [if_neg he] at hc
    exact Or.inr ⟨he, hc⟩

theorem CallChanges.old (h : CallChanges w t c new) {c' : Nat} {call' : Call}
    (hc : t.calls.get? c' = some call') (hne : new ≠ some call') : w.calls.get? c' = some call' :=
  (h.cases hc).elim (fun hn => absurd hn.2 hne) And.right

/-- A call goes on without the registry, towards fewer obligations. -/
theorem Books.move (h : w.Books) (hcalls : CallChanges w t c new)
    (hsessions : t.sessions = w.sessions) (htearing : t.tearingDown = w.tearingDown)
    (hdrawn : t.drawn = w.drawn) (hcloses : ∀ n x, new = some n → n.stage.closes = some x →
      ∃ call, w.calls.get? c = some call ∧ call.stage.closes = some x)
    (hunsent : ∀ n id, new = some n → n.stage.unsent = some id →
      ∃ call, w.calls.get? c = some call ∧ call.stage.unsent = some id)
    (hactive : ∀ n id, new = some n → n.stage.active = some id →
      ∃ call, w.calls.get? c = some call ∧ call.stage.active = some id ∧ call.owner = n.owner) :
    t.Books where
  slot := by
    rw [hsessions, htearing]
    exact h.slot
  closes c' call' id rest hc hs := by
    rw [htearing]
    rcases hcalls.cases hc with ⟨_, hn⟩ | ⟨_, hc⟩
    · obtain ⟨old, hold, hs'⟩ := hcloses call' (id, rest) hn hs
      exact h.closes c old id rest hold hs'
    · exact h.closes c' call' id rest hc hs
  closer c₁ c₂ call₁ call₂ x y hc₁ hc₂ hx hy := by
    rcases hcalls.cases hc₁ with ⟨he₁, hn₁⟩ | ⟨_, hc₁⟩
    · obtain ⟨old₁, hold₁, hs₁⟩ := hcloses call₁ x hn₁ hx
      rcases hcalls.cases hc₂ with ⟨he₂, _⟩ | ⟨_, hc₂⟩
      · exact he₁.trans he₂.symm
      · exact he₁.trans (h.closer c c₂ old₁ call₂ x y hold₁ hc₂ hs₁ hy)
    · rcases hcalls.cases hc₂ with ⟨he₂, hn₂⟩ | ⟨_, hc₂⟩
      · obtain ⟨old₂, hold₂, hs₂⟩ := hcloses call₂ y hn₂ hy
        exact (h.closer c₁ c call₁ old₂ x y hc₁ hold₂ hx hs₂).trans he₂.symm
      · exact h.closer c₁ c₂ call₁ call₂ x y hc₁ hc₂ hx hy
  unsent c' call' id hc hs := by
    unfold Registered
    rw [hsessions]
    rcases hcalls.cases hc with ⟨_, hn⟩ | ⟨_, hc⟩
    · obtain ⟨old, hold, hs'⟩ := hunsent call' id hn hs
      exact h.unsent c old id hold hs'
    · exact h.unsent c' call' id hc hs
  held c' call' id s hc ha hs := by
    rw [hsessions] at hs
    rcases hcalls.cases hc with ⟨_, hn⟩ | ⟨_, hc⟩
    · obtain ⟨old, hold, ha', ho⟩ := hactive call' id hn ha
      rw [← ho]
      exact h.held c old id s hold ha' hs
    · exact h.held c' call' id s hc ha hs
  once c₁ c₂ call₁ call₂ id hc₁ hc₂ h₁ h₂ := by
    rcases hcalls.cases hc₁ with ⟨he₁, hn₁⟩ | ⟨_, hc₁⟩
    · obtain ⟨old₁, hold₁, ha₁, _⟩ := hactive call₁ id hn₁ h₁
      rcases hcalls.cases hc₂ with ⟨he₂, _⟩ | ⟨_, hc₂⟩
      · exact he₁.trans he₂.symm
      · exact he₁.trans (h.once c c₂ old₁ call₂ id hold₁ hc₂ ha₁ h₂)
    · rcases hcalls.cases hc₂ with ⟨he₂, hn₂⟩ | ⟨_, hc₂⟩
      · obtain ⟨old₂, hold₂, ha₂, _⟩ := hactive call₂ id hn₂ h₂
        exact (h.once c₁ c call₁ old₂ id hc₁ hold₂ h₁ ha₂).trans he₂.symm
      · exact h.once c₁ c₂ call₁ call₂ id hc₁ hc₂ h₁ h₂
  registered id s hs := by
    rw [hsessions] at hs
    rw [hdrawn]
    exact h.registered id s hs
  active c' call' id hc ha := by
    rw [hdrawn]
    rcases hcalls.cases hc with ⟨_, hn⟩ | ⟨_, hc⟩
    · obtain ⟨old, hold, ha', _⟩ := hactive call' id hn ha
      exact h.active c old id hold ha'
    · exact h.active c' call' id hc ha

variable {id : String}

theorem size_pos_of_get? {d : Dict String Session} {s : Session}
    (h : d.get? id = some s) : 0 < d.size :=
  Nat.lt_of_le_of_lt (Nat.zero_le _) (Dict.size_erase_lt d h)

section

variable (h : w.Books)

include h

theorem Books.alone {s : Session} (hs : w.sessions.get? id = some s) :
    w.tearingDown = [] ∧ ∀ id' s', w.sessions.get? id' = some s' → id' = id := by
  have hpos := size_pos_of_get? hs
  have hslot := h.slot
  refine ⟨List.eq_nil_of_length_eq_zero (by omega), ?_⟩
  intro id' s' hs'
  by_cases he : id' = id
  · exact he
  have hrest : (w.sessions.erase id).get? id' = some s' := by
    rw [Dict.get?_erase, if_neg he]
    exact hs'
  have hless := Dict.size_erase_lt w.sessions hs
  have hone := size_pos_of_get? hrest
  omega

/-- A registered session goes over to the teardown, and a call begins to close it. -/
theorem Books.take {s : Session} (hs : w.sessions.get? id = some s) {after : After}
    (hcalls : CallChanges w t c (some { call with stage := .closing .stopping id [] after }))
    (hsessions : ∀ id', t.sessions.get? id' = if id' = id then none else w.sessions.get? id')
    (hsize : t.sessions.size = 0) (htearing : t.tearingDown = [id]) (hdrawn : t.drawn = w.drawn)
    (hunsent : ∀ c' call', c' ≠ c → w.calls.get? c' = some call' →
      call'.stage.unsent ≠ some id) : t.Books where
  slot := by
    rw [hsize, htearing]
    exact Nat.le_refl 1
  closes c' call' id' rest hc hx := by
    rcases hcalls.cases hc with ⟨_, hn⟩ | ⟨_, hc⟩
    · cases hn
      cases hx
      exact ⟨rfl, htearing⟩
    · have hw := (h.closes c' call' id' rest hc hx).2
      rw [(h.alone hs).1] at hw
      cases hw
  closer c₁ c₂ call₁ call₂ x y hc₁ hc₂ hx hy := by
    have hold : ∀ c' call' z, w.calls.get? c' = some call' → call'.stage.closes = some z →
        False := by
      intro c' call' z hc hz
      obtain ⟨id', rest⟩ := z
      have hw := (h.closes c' call' id' rest hc hz).2
      rw [(h.alone hs).1] at hw
      cases hw
    rcases hcalls.cases hc₁ with ⟨he₁, _⟩ | ⟨_, hc₁⟩
    · rcases hcalls.cases hc₂ with ⟨he₂, _⟩ | ⟨_, hc₂⟩
      · exact he₁.trans he₂.symm
      · exact (hold c₂ call₂ y hc₂ hy).elim
    · exact (hold c₁ call₁ x hc₁ hx).elim
  unsent c' call' id' hc hu := by
    rcases hcalls.cases hc with ⟨_, hn⟩ | ⟨hne, hc⟩
    · cases hn
      cases hu
    · obtain ⟨s', hs'⟩ := h.unsent c' call' id' hc hu
      have hid := (h.alone hs).2 id' s' hs'
      exact absurd (hid ▸ hu) (hunsent c' call' hne hc)
  held c' call' id' s' hc ha hs' := by
    rw [hsessions] at hs'
    by_cases hid : id' = id
    · rw [if_pos hid] at hs'
      cases hs'
    · rw [if_neg hid] at hs'
      exact absurd ((h.alone hs).2 id' s' hs') hid
  once c₁ c₂ call₁ call₂ id' hc₁ hc₂ h₁ h₂ := by
    have hc₁ := hcalls.old hc₁ fun hn => by cases hn; cases h₁
    have hc₂ := hcalls.old hc₂ fun hn => by cases hn; cases h₂
    exact h.once c₁ c₂ call₁ call₂ id' hc₁ hc₂ h₁ h₂
  registered id' s' hs' := by
    rw [hsessions] at hs'
    by_cases hid : id' = id
    · rw [if_pos hid] at hs'
      cases hs'
    · rw [if_neg hid] at hs'
      exact absurd ((h.alone hs).2 id' s' hs') hid
  active c' call' id' hc ha := by
    rw [hdrawn]
    exact h.active c' call' id' (hcalls.old hc fun hn => by cases hn; cases ha) ha

theorem Books.once_executing
    (hcalls : CallChanges w t c (some { call with stage := .executing id }))
    (hnew : ∀ c' call', w.calls.get? c' = some call' → call'.stage.active ≠ some id) {c₁ c₂ : Nat}
    {call₁ call₂ : Call} {id' : String} (hc₁ : t.calls.get? c₁ = some call₁)
    (hc₂ : t.calls.get? c₂ = some call₂) (h₁ : call₁.stage.active = some id')
    (h₂ : call₂.stage.active = some id') : c₁ = c₂ := by
  rcases hcalls.cases hc₁ with ⟨he₁, hn₁⟩ | ⟨_, hc₁⟩
  · rcases hcalls.cases hc₂ with ⟨he₂, _⟩ | ⟨_, hc₂⟩
    · exact he₁.trans he₂.symm
    cases hn₁
    cases h₁
    exact absurd h₂ (hnew c₂ call₂ hc₂)
  · rcases hcalls.cases hc₂ with ⟨he₂, hn₂⟩ | ⟨_, hc₂⟩
    · cases hn₂
      cases h₂
      exact absurd h₁ (hnew c₁ call₁ hc₁)
    · exact h.once c₁ c₂ call₁ call₂ id' hc₁ hc₂ h₁ h₂

theorem Books.opens {s : Session} (hid : id ∉ w.drawn)
    (hempty : w.sessions.size = 0) (htear : w.tearingDown = [])
    (hcalls : CallChanges w t c (some { call with stage := .executing id }))
    (hsessions : t.sessions = w.sessions.set id s) (htearing : t.tearingDown = w.tearingDown)
    (hdrawn : t.drawn = id :: w.drawn) (hbusy : s.busy = true) (howner : s.owner = call.owner) :
    t.Books where
  slot := by
    have hset := w.sessions.size_set_le id s
    rw [hsessions, htearing, htear, List.length_nil]
    omega
  closes c' call' id' rest hc hx := by
    rw [htearing]
    exact h.closes c' call' id' rest (hcalls.old hc fun hn => by cases hn; cases hx) hx
  closer c₁ c₂ call₁ call₂ x y hc₁ hc₂ hx hy := by
    have hc₁ := hcalls.old hc₁ fun hn => by cases hn; cases hx
    have hc₂ := hcalls.old hc₂ fun hn => by cases hn; cases hy
    exact h.closer c₁ c₂ call₁ call₂ x y hc₁ hc₂ hx hy
  unsent c' call' id' hc hu := by
    unfold Registered
    rw [hsessions]
    rcases hcalls.cases hc with ⟨_, hn⟩ | ⟨_, hc⟩
    · cases hn
      cases hu
      exact ⟨s, Dict.get?_set_self _ _ _⟩
    · obtain ⟨s', hs'⟩ := h.unsent c' call' id' hc hu
      have hpos := size_pos_of_get? hs'
      omega
  held c' call' id' s' hc ha hs' := by
    rw [hsessions, Dict.get?_set] at hs'
    by_cases hid' : id' = id
    · rw [if_pos hid'] at hs'
      cases hs'
      rcases hcalls.cases hc with ⟨_, hn⟩ | ⟨_, hc⟩
      · cases hn
        exact ⟨hbusy, howner⟩
      · exact absurd (h.active c' call' id' hc ha) (hid' ▸ hid)
    · rw [if_neg hid'] at hs'
      have hpos := size_pos_of_get? hs'
      omega
  once c₁ c₂ call₁ call₂ id' hc₁ hc₂ h₁ h₂ := by
    have hnew : ∀ c' call', w.calls.get? c' = some call' → call'.stage.active ≠ some id := by
      intro c' call' hc ha
      exact hid (h.active c' call' id hc ha)
    exact h.once_executing hcalls hnew hc₁ hc₂ h₁ h₂
  registered id' s' hs' := by
    rw [hsessions, Dict.get?_set] at hs'
    rw [hdrawn]
    by_cases hid' : id' = id
    · rw [hid']
      exact List.mem_cons_self
    · rw [if_neg hid'] at hs'
      exact List.mem_cons_of_mem id (h.registered id' s' hs')
  active c' call' id' hc ha := by
    rw [hdrawn]
    rcases hcalls.cases hc with ⟨_, hn⟩ | ⟨_, hc⟩
    · cases hn
      cases ha
      exact List.mem_cons_self
    · exact List.mem_cons_of_mem id (h.active c' call' id' hc ha)

theorem Books.reserves {s s' : Session} (hs : w.sessions.get? id = some s) (hfree : s.busy = false)
    (hcalls : CallChanges w t c (some { call with stage := .executing id }))
    (hsessions : t.sessions = w.sessions.set id s') (htearing : t.tearingDown = w.tearingDown)
    (hdrawn : t.drawn = w.drawn) (hbusy : s'.busy = true) (howner : s'.owner = call.owner) :
    t.Books where
  slot := by
    rw [hsessions, htearing, Dict.size_set_of_some _ hs]
    exact h.slot
  closes c' call' id' rest hc hx := by
    rw [htearing]
    exact h.closes c' call' id' rest (hcalls.old hc fun hn => by cases hn; cases hx) hx
  closer c₁ c₂ call₁ call₂ x y hc₁ hc₂ hx hy := by
    have hc₁ := hcalls.old hc₁ fun hn => by cases hn; cases hx
    have hc₂ := hcalls.old hc₂ fun hn => by cases hn; cases hy
    exact h.closer c₁ c₂ call₁ call₂ x y hc₁ hc₂ hx hy
  unsent c' call' id' hc hu := by
    unfold Registered
    rw [hsessions, Dict.get?_set]
    rcases hcalls.cases hc with ⟨_, hn⟩ | ⟨_, hc⟩
    · cases hn
      cases hu
      exact ⟨s', if_pos rfl⟩
    · split
      · exact ⟨s', rfl⟩
      · exact h.unsent c' call' id' hc hu
  held c' call' id' s₁ hc ha hs₁ := by
    rw [hsessions, Dict.get?_set] at hs₁
    rcases hcalls.cases hc with ⟨_, hn⟩ | ⟨_, hc⟩
    · cases hn
      cases ha
      rw [if_pos rfl] at hs₁
      cases hs₁
      exact ⟨hbusy, howner⟩
    by_cases hid : id' = id
    · have hb := (h.held c' call' id s hc (hid ▸ ha) hs).1
      rw [hfree] at hb
      cases hb
    · rw [if_neg hid] at hs₁
      exact h.held c' call' id' s₁ hc ha hs₁
  once c₁ c₂ call₁ call₂ id' hc₁ hc₂ h₁ h₂ := by
    have hnew : ∀ c' call', w.calls.get? c' = some call' → call'.stage.active ≠ some id := by
      intro c' call' hc ha
      have hb := (h.held c' call' id s hc ha hs).1
      rw [hfree] at hb
      cases hb
    exact h.once_executing hcalls hnew hc₁ hc₂ h₁ h₂
  registered id' s₁ hs₁ := by
    rw [hsessions, Dict.get?_set] at hs₁
    rw [hdrawn]
    by_cases hid : id' = id
    · rw [hid]
      exact h.registered id s hs
    · rw [if_neg hid] at hs₁
      exact h.registered id' s₁ hs₁
  active c' call' id' hc ha := by
    rw [hdrawn]
    rcases hcalls.cases hc with ⟨_, hn⟩ | ⟨_, hc⟩
    · cases hn
      cases ha
      exact h.registered id s hs
    · exact h.active c' call' id' hc ha

theorem Books.frees (hc : w.calls.get? c = some call)
    (hactive : call.stage.active = some id) (hcalls : CallChanges w t c none)
    (hsessions : t.sessions = w.sessions.update id fun s => { s with busy := false })
    (htearing : t.tearingDown = w.tearingDown) (hdrawn : t.drawn = w.drawn) : t.Books where
  slot := by
    rw [hsessions, htearing]
    have hsize : (w.sessions.update id fun s => { s with busy := false }).size =
        w.sessions.size := Dict.size_mapValues _ _
    rw [hsize]
    exact h.slot
  closes c' call' id' rest hc' hx := by
    rw [htearing]
    exact h.closes c' call' id' rest (hcalls.old hc' nofun) hx
  closer c₁ c₂ call₁ call₂ x y hc₁ hc₂ hx hy := 
    h.closer c₁ c₂ call₁ call₂ x y (hcalls.old hc₁ nofun) (hcalls.old hc₂ nofun) hx hy
  unsent c' call' id' hc' hu := by
    unfold Registered
    rw [hsessions, Dict.get?_update_eq_map]
    obtain ⟨s, hs⟩ := h.unsent c' call' id' (hcalls.old hc' nofun) hu
    rw [hs]
    exact ⟨_, rfl⟩
  held c' call' id' s hc' ha hs := by
    rw [hsessions, Dict.get?_update] at hs
    rcases hcalls.cases hc' with ⟨_, hn⟩ | ⟨hne, hc'⟩
    · cases hn
    by_cases hid : id' = id
    · exact absurd (h.once c' c call' call id hc' hc (hid ▸ ha) hactive) hne
    · rw [if_neg hid] at hs
      exact h.held c' call' id' s hc' ha hs
  once c₁ c₂ call₁ call₂ id' hc₁ hc₂ h₁ h₂ := 
    h.once c₁ c₂ call₁ call₂ id' (hcalls.old hc₁ nofun) (hcalls.old hc₂ nofun) h₁ h₂
  registered id' s hs := by
    rw [hsessions, Dict.get?_update_eq_map] at hs
    rw [hdrawn]
    obtain ⟨s', hs', _⟩ := Option.map_eq_some_iff.mp hs
    exact h.registered id' s' hs'
  active c' call' id' hc' ha := by
    rw [hdrawn]
    exact h.active c' call' id' (hcalls.old hc' nofun) ha

theorem Books.discards {rest : List String}
    (hc : w.calls.get? c = some call) (hcloses : call.stage.closes = some (id, rest))
    (hcalls : CallChanges w t c new) (hsessions : t.sessions = w.sessions)
    (htearing : t.tearingDown = w.tearingDown.filter (· ≠ id)) (hdrawn : t.drawn = w.drawn)
    (hnew : ∀ n, new = some n → n.stage.closes = none ∧ n.stage.active = none) :
    t.Books where
  slot := by
    have hless := List.length_filter_le (· ≠ id) w.tearingDown
    have hslot := h.slot
    rw [hsessions, htearing]
    omega
  closes c' call' id' rest' hc' hx := by
    rcases hcalls.cases hc' with ⟨_, hn⟩ | ⟨hne, hc'⟩
    · rw [(hnew call' hn).1] at hx
      cases hx
    · exact absurd (h.closer c' c call' call _ _ hc' hc hx hcloses) hne
  closer c₁ c₂ call₁ call₂ x y hc₁ hc₂ hx hy := by
    have hc₁ := hcalls.old hc₁ fun hn => nomatch (hnew call₁ hn).1.symm.trans hx
    have hc₂ := hcalls.old hc₂ fun hn => nomatch (hnew call₂ hn).1.symm.trans hy
    exact h.closer c₁ c₂ call₁ call₂ x y hc₁ hc₂ hx hy
  unsent c' call' id' hc' hu := by
    unfold Registered
    rw [hsessions]
    rcases hcalls.cases hc' with ⟨_, hn⟩ | ⟨_, hc'⟩
    · have ha := Stage.active_of_unsent hu
      rw [(hnew call' hn).2] at ha
      cases ha
    · exact h.unsent c' call' id' hc' hu
  held c' call' id' s hc' ha hs := by
    rw [hsessions] at hs
    have hc' := hcalls.old hc' fun hn => nomatch (hnew call' hn).2.symm.trans ha
    exact h.held c' call' id' s hc' ha hs
  once c₁ c₂ call₁ call₂ id' hc₁ hc₂ h₁ h₂ := by
    have hc₁ := hcalls.old hc₁ fun hn => nomatch (hnew call₁ hn).2.symm.trans h₁
    have hc₂ := hcalls.old hc₂ fun hn => nomatch (hnew call₂ hn).2.symm.trans h₂
    exact h.once c₁ c₂ call₁ call₂ id' hc₁ hc₂ h₁ h₂
  registered id' s hs := by
    rw [hsessions] at hs
    rw [hdrawn]
    exact h.registered id' s hs
  active c' call' id' hc' ha := by
    rw [hdrawn]
    have hc' := hcalls.old hc' fun hn => nomatch (hnew call' hn).2.symm.trans ha
    exact h.active c' call' id' hc' ha

end

end

/-! ## The processes -/

def Guarded (w : World) (id : String) : Prop :=
  w.Registered id ∨ ∃ c call, w.calls.get? c = some call ∧ call.stage.guards = some id

structure Fleet (w : World) : Prop where
  uses : ∀ c call id p, w.calls.get? c = some call → call.stage.uses = some (id, p) →
    ∃ q, w.processes.get? p = some q ∧ q.startedFor = id
  own : ∀ p q, w.processes.get? p = some q →
    (∀ page, q.page = some page → page.sessionId = q.startedFor) ∧
      ∀ r ∈ q.replies, r.sessionId = q.startedFor
  current : ∀ p, w.process = some p → ∃ q, w.processes.get? p = some q ∧ w.Guarded q.startedFor
  stray : ∀ p q, w.processes.get? p = some q → q.alive = true →
    w.process = some p ∨ ∃ c call, w.calls.get? c = some call ∧ call.stage.dooms = some p
  bound : ∀ p q, w.processes.get? p = some q → p < w.spawned

section

variable {w t : World} {c : Nat} {call : Call} {new : Option Call}

/-- The processes stay, and whatever protected the current one still does. -/
theorem Fleet.change (h : w.Fleet) (hcalls : CallChanges w t c new)
    (hprocess : t.process = w.process) (hprocesses : t.processes = w.processes)
    (hspawned : t.spawned = w.spawned)
    (huses : ∀ n id p, new = some n → n.stage.uses = some (id, p) →
      ∃ q, w.processes.get? p = some q ∧ q.startedFor = id)
    (hguarded : ∀ p id, w.process = some p → w.Guarded id → t.Guarded id)
    (hdooms : ∀ call p, w.calls.get? c = some call → call.stage.dooms = some p →
      ∀ q, w.processes.get? p = some q → q.alive = false) : t.Fleet where
  uses c' call' id p hc hu := by
    rw [hprocesses]
    rcases hcalls.cases hc with ⟨_, hn⟩ | ⟨_, hc⟩
    · exact huses call' id p hn hu
    · exact h.uses c' call' id p hc hu
  own := by
    rw [hprocesses]
    exact h.own
  current p hp := by
    rw [hprocess] at hp
    rw [hprocesses]
    obtain ⟨q, hq, hg⟩ := h.current p hp
    exact ⟨q, hq, hguarded p q.startedFor hp hg⟩
  stray p q hq ha := by
    rw [hprocesses] at hq
    rw [hprocess]
    cases h.stray p q hq ha with
    | inl hp => exact Or.inl hp
    | inr hd =>
      obtain ⟨c', call', hc, hd⟩ := hd
      by_cases he : c' = c
      · have hdead := hdooms call' p (he ▸ hc) hd q hq
        rw [hdead] at ha
        cases ha
      · refine Or.inr ⟨c', call', ?_, hd⟩
        rw [hcalls c', if_neg he]
        exact hc
  bound := by
    rw [hprocesses, hspawned]
    exact h.bound

theorem Guarded.change {id : String} (h : w.Guarded id) (hcalls : CallChanges w t c new)
    (hregistered : w.Registered id → t.Guarded id)
    (hguards : ∀ call, w.calls.get? c = some call → call.stage.guards ≠ some id) :
    t.Guarded id := by
  cases h with
  | inl hr => exact hregistered hr
  | inr hg =>
    obtain ⟨c', call', hc, hg⟩ := hg
    have hne : c' ≠ c := by
      intro he
      exact hguards call' (he ▸ hc) hg
    refine Or.inr ⟨c', call', ?_, hg⟩
    rw [hcalls c', if_neg hne]
    exact hc

/-- The call guards no session and dooms no process, or there is none. -/
def Free (w : World) (c : Nat) : Prop :=
  ∀ call, w.calls.get? c = some call → call.stage.guards = none ∧ call.stage.dooms = none

theorem Free.of_call (hc : w.calls.get? c = some call)
    (hstage : call.stage.guards = none ∧ call.stage.dooms = none) : w.Free c := by
  intro call' hc'
  rw [hc] at hc'
  cases hc'
  exact hstage

theorem Free.of_none (hc : w.calls.get? c = none) : w.Free c := by
  intro call hc'
  rw [hc] at hc'
  cases hc'

theorem Fleet.free (h : w.Fleet) (hfree : w.Free c) (hcalls : CallChanges w t c new)
    (hprocess : t.process = w.process) (hprocesses : t.processes = w.processes)
    (hspawned : t.spawned = w.spawned)
    (huses : ∀ n id p, new = some n → n.stage.uses = some (id, p) →
      ∃ q, w.processes.get? p = some q ∧ q.startedFor = id)
    (hregistered : ∀ id, w.Registered id → t.Guarded id) : t.Fleet := by
  refine h.change hcalls hprocess hprocesses hspawned huses ?_ ?_
  · intro p id _ hg
    refine hg.change hcalls (hregistered id) fun call hc => ?_
    rw [(hfree call hc).1]
    exact fun hn => by cases hn
  · intro call p hc hd
    rw [(hfree call hc).2] at hd
    cases hd

/-- The client lets go of its process, which the call is now about to terminate. -/
theorem Fleet.drop (h : w.Fleet) (hc : w.calls.get? c = some call)
    (hcalls : CallChanges w t c new) (hprocess : t.process = none)
    (hprocesses : t.processes = w.processes) (hspawned : t.spawned = w.spawned)
    (huses : ∀ n, new = some n → n.stage.uses = none) (hdooms : call.stage.dooms = none)
    (hnew : ∀ p, w.process = some p → ∃ n, new = some n ∧ n.stage.dooms = some p) :
    t.Fleet where
  uses c' call' id p hc' hu := by
    rw [hprocesses]
    rcases hcalls.cases hc' with ⟨_, hn⟩ | ⟨_, hc'⟩
    · rw [huses call' hn] at hu
      cases hu
    · exact h.uses c' call' id p hc' hu
  own := by
    rw [hprocesses]
    exact h.own
  current p hp := by
    rw [hprocess] at hp
    cases hp
  stray p q hq ha := by
    rw [hprocesses] at hq
    right
    cases h.stray p q hq ha with
    | inl hp =>
      obtain ⟨n, hn, hd⟩ := hnew p hp
      refine ⟨c, n, ?_, hd⟩
      rw [hcalls c, if_pos rfl]
      exact hn
    | inr hd =>
      obtain ⟨c', call', hc', hd⟩ := hd
      have hne : c' ≠ c := by
        intro he
        rw [he, hc] at hc'
        cases hc'
        rw [hdooms] at hd
        cases hd
      refine ⟨c', call', ?_, hd⟩
      rw [hcalls c', if_neg hne]
      exact hc'
  bound := by
    rw [hprocesses, hspawned]
    exact h.bound

/-- A process changes without coming to life or answering for another session. -/
theorem Fleet.setProcess (h : w.Fleet) {p : Nat} {q q' : Process}
    (hq : w.processes.get? p = some q) (hfor : q'.startedFor = q.startedFor)
    (halive : q'.alive = true → q.alive = true)
    (hpage : ∀ page, q'.page = some page → page.sessionId = q.startedFor)
    (hreplies : ∀ r ∈ q'.replies, r.sessionId = q.startedFor) :
    (w.setProcess p q').Fleet where
  uses c' call' id p' hc hu := by
    obtain ⟨q₁, hq₁, hf⟩ := h.uses c' call' id p' hc hu
    show ∃ q, (w.processes.set p q').get? p' = some q ∧ q.startedFor = id
    rw [Dict.get?_set]
    by_cases hp : p' = p
    · rw [if_pos hp]
      rw [hp, hq] at hq₁
      cases hq₁
      exact ⟨q', rfl, hfor.trans hf⟩
    · rw [if_neg hp]
      exact ⟨q₁, hq₁, hf⟩
  own p' q₁ hq₁ := by
    replace hq₁ : (w.processes.set p q').get? p' = some q₁ := hq₁
    rw [Dict.get?_set] at hq₁
    by_cases hp : p' = p
    · rw [if_pos hp] at hq₁
      cases hq₁
      rw [hfor]
      exact ⟨hpage, hreplies⟩
    · rw [if_neg hp] at hq₁
      exact h.own p' q₁ hq₁
  current p' hp' := by
    obtain ⟨q₁, hq₁, hg⟩ := h.current p' hp'
    show ∃ q, (w.processes.set p q').get? p' = some q ∧ w.Guarded q.startedFor
    rw [Dict.get?_set]
    by_cases hp : p' = p
    · rw [if_pos hp]
      rw [hp, hq] at hq₁
      cases hq₁
      exact ⟨q', rfl, hfor ▸ hg⟩
    · rw [if_neg hp]
      exact ⟨q₁, hq₁, hg⟩
  stray p' q₁ hq₁ ha := by
    replace hq₁ : (w.processes.set p q').get? p' = some q₁ := hq₁
    rw [Dict.get?_set] at hq₁
    by_cases hp : p' = p
    · rw [if_pos hp] at hq₁
      cases hq₁
      rw [hp]
      exact h.stray p q hq (halive ha)
    · rw [if_neg hp] at hq₁
      exact h.stray p' q₁ hq₁ ha
  bound p' q₁ hq₁ := by
    replace hq₁ : (w.processes.set p q').get? p' = some q₁ := hq₁
    rw [Dict.get?_set] at hq₁
    by_cases hp : p' = p
    · rw [hp]
      exact h.bound p q hq
    · rw [if_neg hp] at hq₁
      exact h.bound p' q₁ hq₁

theorem Fleet.kill (h : w.Fleet) (p : Option Nat) : (w.kill p).Fleet := by
  cases p with
  | none => exact h
  | some p =>
    have hget : ∀ p' q', (w.kill (some p)).processes.get? p' = some q' →
        ∃ q, w.processes.get? p' = some q ∧
          q' = if p' = p then { q with alive := false, page := none } else q := by
      intro p' q' hq'
      replace hq' : (w.processes.update p fun q =>
        { q with alive := false, page := none }).get? p' = some q' := hq'
      rw [Dict.get?_update_eq_map] at hq'
      obtain ⟨q, hq, he⟩ := Option.map_eq_some_iff.mp hq'
      exact ⟨q, hq, he.symm⟩
    have hkept : ∀ p' q, w.processes.get? p' = some q →
        ∃ q', (w.kill (some p)).processes.get? p' = some q' ∧ q'.startedFor = q.startedFor := by
      intro p' q hq
      refine ⟨if p' = p then { q with alive := false, page := none } else q, ?_, ?_⟩
      · show (w.processes.update p fun q =>
          { q with alive := false, page := none }).get? p' = _
        rw [Dict.get?_update_eq_map, hq]
        rfl
      · split
        · rfl
        · rfl
    refine ⟨?_, ?_, ?_, ?_, ?_⟩
    · intro c' call' id p' hc hu
      obtain ⟨q, hq, hf⟩ := h.uses c' call' id p' hc hu
      obtain ⟨q', hq', hf'⟩ := hkept p' q hq
      exact ⟨q', hq', hf'.trans hf⟩
    · intro p' q' hq'
      obtain ⟨q, hq, he⟩ := hget p' q' hq'
      subst he
      split
      · exact ⟨fun page hp => (by cases hp), (h.own p' q hq).2⟩
      · exact h.own p' q hq
    · intro p' hp'
      obtain ⟨q, hq, hg⟩ := h.current p' hp'
      obtain ⟨q', hq', hf'⟩ := hkept p' q hq
      exact ⟨q', hq', hf' ▸ hg⟩
    · intro p' q' hq' ha
      obtain ⟨q, hq, he⟩ := hget p' q' hq'
      subst he
      split at ha
      · cases ha
      · exact h.stray p' q hq ha
    · intro p' q' hq'
      obtain ⟨q, hq, _⟩ := hget p' q' hq'
      exact h.bound p' q hq

theorem kill_dead {p : Option Nat} {p' : Nat} (hp : p = some p') {q : Process}
    (hq : (w.kill p).processes.get? p' = some q) : q.alive = false := by
  subst hp
  replace hq : (w.processes.update p' fun q =>
    { q with alive := false, page := none }).get? p' = some q := hq
  rw [Dict.get?_update, if_pos rfl] at hq
  obtain ⟨q₁, _, rfl⟩ := Option.map_eq_some_iff.mp hq
  rfl

theorem Fleet.spawn (h : w.Fleet) {id : String} (hr : w.Registered id)
    (hdead : w.process.filter w.isAlive = none) : (w.spawn id).Fleet where
  uses c' call' id' p' hc hu := by
    obtain ⟨q₁, hq₁, hf⟩ := h.uses c' call' id' p' hc hu
    have hne : p' ≠ w.spawned := Nat.ne_of_lt (h.bound p' q₁ hq₁)
    show ∃ q, (w.processes.set w.spawned _).get? p' = some q ∧ q.startedFor = id'
    rw [Dict.get?_set, if_neg hne]
    exact ⟨q₁, hq₁, hf⟩
  own p' q₁ hq₁ := by
    replace hq₁ : (w.processes.set w.spawned ⟨true, none, [], id⟩).get? p' = some q₁ := hq₁
    rw [Dict.get?_set] at hq₁
    by_cases hp : p' = w.spawned
    · rw [if_pos hp] at hq₁
      cases hq₁
      exact ⟨fun page hp => (by cases hp), fun r hr => (by cases hr)⟩
    · rw [if_neg hp] at hq₁
      exact h.own p' q₁ hq₁
  current p' hp' := by
    replace hp' : some w.spawned = some p' := hp'
    cases hp'
    exact ⟨⟨true, none, [], id⟩, Dict.get?_set_self _ _ _, Or.inl hr⟩
  stray p' q₁ hq₁ ha := by
    replace hq₁ : (w.processes.set w.spawned ⟨true, none, [], id⟩).get? p' = some q₁ := hq₁
    rw [Dict.get?_set] at hq₁
    by_cases hp : p' = w.spawned
    · rw [hp]
      exact Or.inl rfl
    rw [if_neg hp] at hq₁
    cases h.stray p' q₁ hq₁ ha with
    | inl hcur =>
      rw [hcur] at hdead
      have hlive : w.isAlive p' = true := by
        unfold isAlive
        rw [hq₁]
        exact ha
      simp [Option.filter, hlive] at hdead
    | inr hd => exact Or.inr hd
  bound p' q₁ hq₁ := by
    replace hq₁ : (w.processes.set w.spawned ⟨true, none, [], id⟩).get? p' = some q₁ := hq₁
    rw [Dict.get?_set] at hq₁
    show p' < w.spawned + 1
    by_cases hp : p' = w.spawned
    · omega
    rw [if_neg hp] at hq₁
    have hlt := h.bound p' q₁ hq₁
    omega

end

end World

end CodexBridge.Browser
