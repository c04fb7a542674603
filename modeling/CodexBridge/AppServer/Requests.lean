import CodexBridge.AppServer.Link
import CodexBridge.Library.Traces

/-! # Requests of the client

A request is in the pending table, or a thread is about to set its future, or the future
is set, or it was withdrawn; never two of these. The ring of retired ids holds the last
ones retired, and its set those of them that no response has met.
-/

namespace CodexBridge.AppServer

open Effect Traces

/-! ## What must hold of the trace -/

/-- The first response line with the request's id had this result; it was read in the
request's generation and after the registration. -/
def Backed (past : List Event) (n : Nat) (value : Json) : Prop :=
  ∃ g earlier, Event.response g (.number n) (.result value) (.taken n) :: earlier <:+ past ∧
    .registered g n ∈ earlier ∧ ∀ body verdict, .response g (.number n) body verdict ∉ earlier

def Event.isRetired : Event → Bool
  | .retired _ => true
  | _ => false

def Event.isSettled : Event → Bool
  | .settled .. => true
  | _ => false

def Event.isResponse : Event → Bool
  | .response .. => true
  | _ => false

def Event.isEnded : Event → Bool
  | .ended .. => true
  | _ => false

def Event.isQuiet : Event → Bool
  | .received .. | .answered .. | .discarded _ | .failed _ | .spawned _ => true
  | _ => false

/-- A response line after its request timed out, with at most as many ids retired in
between as the ring holds. -/
def IsLate (past : List Event) (g : Nat) (id : RequestId) : Prop :=
  ∃ (n : Nat) (mid earlier : List Event), id = .number n ∧ past = mid ++ .timedOut g n :: earlier ∧
    (∀ body verdict, .response g id body verdict ∉ mid) ∧
    mid.countP Event.isRetired ≤ retiredIdLimit

/-- A request ends once, and with a result only if a response line had it; a future is
set once; a response line reaches the request whose id it has, or is swallowed, and that
once, if it was retired; a late one is swallowed. -/
def RequestRight : Event → List Event → Prop
  | .ended n outcome, past =>
    (∀ earlier, .ended n earlier ∉ past) ∧ ∀ value, outcome = .result value → Backed past n value
  | .settled n _, past => ∀ earlier, .settled n earlier ∉ past
  | .response g id _ verdict, past =>
    (∀ m, verdict = .taken m → id = .number m ∧ .registered g m ∈ past) ∧
    (verdict = .swallowed → .retired (g, id) ∈ past ∧
      ∀ body, .response g id body .swallowed ∉ past) ∧
    (IsLate past g id → verdict = .swallowed)
  | .timedOut g n, past => ∃ earlier, past = .retired (keyOf g n) :: earlier
  | _, _ => True

theorem Event.kinds_of_isQuiet {e : Event} (h : e.isQuiet = true) :
    e.isSettled = false ∧ e.isResponse = false ∧ e.isRetired = false ∧ e.isEnded = false := by
  cases e with
  | received | answered | discarded | failed | spawned => exact ⟨rfl, rfl, rfl, rfl⟩
  | _ => cases h

theorem Backed.cons {past : List Event} {n : Nat} {value : Json} (h : Backed past n value)
    (e : Event) : Backed (e :: past) n value := by
  obtain ⟨g, earlier, hs, hreg, hfirst⟩ := h
  exact ⟨g, earlier, hs.trans (List.suffix_cons e past), hreg, hfirst⟩

@[simp] theorem number_keyOf (g n : Nat) : Key.number (keyOf g n) = n := by
  simp [keyOf, Key.number]

theorem keyOf_inj {g n g' n' : Nat} : keyOf g n = keyOf g' n' ↔ g = g' ∧ n = n' := by
  simp only [keyOf, Prod.mk.injEq, RequestId.number.injEq]
  omega

def retirements (t : List Event) : List Key :=
  t.filterMap fun
    | .retired key => some key
    | _ => none

theorem mem_retirements {t : List Event} {key : Key} : key ∈ retirements t ↔ .retired key ∈ t := by
  unfold retirements
  rw [List.mem_filterMap]
  constructor
  · rintro ⟨e, he, hk⟩
    cases e with
    | retired k =>
      cases hk
      exact he
    | _ => cases hk
  · intro h
    exact ⟨_, h, rfl⟩

theorem retirements_append (t u : List Event) :
    retirements (t ++ u) = retirements t ++ retirements u :=
  List.filterMap_append

theorem length_retirements (t : List Event) :
    (retirements t).length = t.countP Event.isRetired := by
  induction t with
  | nil => rfl
  | cons e t ih =>
    have hcons : retirements (e :: t) = retirements [e] ++ retirements t :=
      retirements_append [e] t
    rw [hcons, List.length_append, ih, List.countP_cons]
    cases e with
    | retired key =>
      change 1 + _ = _ + 1
      omega
    | _ =>
      change 0 + _ = _ + 0
      omega

namespace Link

def view (l : Link) (n : Nat) : Option (Nat × Option Outcome) :=
  (l.requests.get? n).map fun q => (q.generation, q.future)

def Known (l : Link) (key : Key) : Prop := ∃ n g f, l.view n = some (g, f) ∧ key = keyOf g n

structure Tracked (l : Link) : Prop where
  numbered : ∀ n v, l.view n = some v → n < l.nextRequestId
  registered : ∀ n g f, l.view n = some (g, f) → .registered g n ∈ l.trace
  pendingNodup : l.pending.Nodup
  pending : ∀ key ∈ l.pending, ∃ n g, l.view n = some (g, none) ∧ key = keyOf g n ∧
    ∀ o, (n, o) ∉ l.settling
  settlingNodup : (l.settling.map Prod.fst).Nodup
  settling : ∀ n o, (n, o) ∈ l.settling → ∃ g, l.view n = some (g, none)
  settled : ∀ n o, .settled n o ∈ l.trace → ∃ g, l.view n = some (g, some o)
  settlingBacked : ∀ n v, (n, .result v) ∈ l.settling → Backed l.trace n v
  futureBacked : ∀ n g v, l.view n = some (g, some (.result v)) → Backed l.trace n v

structure Heard (l : Link) : Prop where
  taken : ∀ g id body m, .response g id body (.taken m) ∈ l.trace →
    (g, id) ∉ l.pending ∧ ∃ f, l.view m = some (g, f) ∧ id = .number m
  swallowed : ∀ g id body, .response g id body .swallowed ∈ l.trace → .retired (g, id) ∈ l.trace
  unmatched : ∀ g id body, .response g id body .unmatched ∈ l.trace → g ∉ l.readers
  generations : ∀ g id body verdict, .response g id body verdict ∈ l.trace → g ≤ l.generation
  readersNodup : l.readers.Nodup
  readers : ∀ g ∈ l.readers, g ≤ l.generation

structure Ringed (l : Link) : Prop where
  retired : ∀ key, .retired key ∈ l.trace → key ∉ l.pending ∧ l.Known key
  retirementsNodup : (retirements l.trace).Nodup
  ring : l.retiredIds = ((retirements l.trace).take retiredIdLimit).reverse
  setNodup : l.retiredIdSet.Nodup
  inSet : ∀ key, key ∈ l.retiredIdSet ↔ key ∈ l.retiredIds ∧
    ∀ body, .response key.1 key.2 body .swallowed ∉ l.trace

def Staged (l : Link) : Prop :=
  ∀ n o, .ended n o ∈ l.trace → ∃ q, l.requests.get? n = some q ∧ q.stage = .ended o

structure Requests (l : Link) : Prop extends Tracked l, Heard l, Ringed l where
  staged : l.Staged
  right : Always RequestRight l.trace

theorem requests_initial : Link.initial.Requests := by
  have hview : ∀ n, Link.initial.view n = none := fun n => rfl
  refine ⟨⟨?_, ?_, List.nodup_nil, ?_, List.nodup_nil, ?_, ?_, ?_, ?_⟩,
    ⟨?_, ?_, ?_, ?_, List.nodup_nil, ?_⟩, ⟨?_, List.nodup_nil, ?_, List.nodup_nil, ?_⟩, ?_, ?_⟩
  all_goals simp [Link.initial, Staged, view, retirements]

/-- The trace grew by at most an event that is not of the kind `p`. -/
def Grows (p : Event → Bool) (l t : Link) : Prop :=
  t.trace = l.trace ∨ ∃ e, p e = false ∧ t.trace = e :: l.trace

section

variable {l t : Link} {p : Event → Bool}

theorem Grows.suffix (h : Grows p l t) : l.trace <:+ t.trace := by
  rcases h with ht | ⟨e, _, ht⟩
  · exact ⟨[], ht.symm⟩
  · rw [ht]
    exact List.suffix_cons e l.trace

theorem Grows.mem (h : Grows p l t) {e : Event} (he : p e = true) : e ∈ t.trace ↔ e ∈ l.trace := by
  constructor
  · intro hm
    rcases h with ht | ⟨e', hq, ht⟩
    · rw [ht] at hm
      exact hm
    rw [ht] at hm
    rcases List.mem_cons.mp hm with rfl | hm
    · rw [hq] at he
      cases he
    · exact hm
  · exact fun hm => h.suffix.subset hm

theorem Grows.retirements (h : Grows Event.isRetired l t) :
    AppServer.retirements t.trace = AppServer.retirements l.trace := by
  rcases h with ht | ⟨e, hq, ht⟩
  · rw [ht]
  rw [ht]
  cases e with
  | retired => cases hq
  | _ => rfl

theorem Grows.backed (h : Grows p l t) {n : Nat} {v : Json} (hb : Backed l.trace n v) :
    Backed t.trace n v := by
  obtain ⟨g, earlier, hs, hrest⟩ := hb
  exact ⟨g, earlier, hs.trans h.suffix, hrest⟩

def Persist (l t : Link) : Prop :=
  ∀ n g f, l.view n = some (g, f) → ∃ f', t.view n = some (g, f')

theorem persist_of_eq (hview : ∀ n, t.view n = l.view n) : Persist l t := by
  intro n g f hv
  exact ⟨f, by rw [hview, hv]⟩

theorem Persist.known (h : Persist l t) {key : Key} (hk : l.Known key) : t.Known key := by
  obtain ⟨n, g, f, hv, hkey⟩ := hk
  obtain ⟨f', hv'⟩ := h n g f hv
  exact ⟨n, g, f', hv', hkey⟩

theorem Tracked.frame (h : Tracked l) (hnext : t.nextRequestId = l.nextRequestId)
    (hview : ∀ n, t.view n = l.view n) (hpending : t.pending.Sublist l.pending)
    (hsettling : t.settling = l.settling) (ht : Grows Event.isSettled l t) : Tracked t where
  numbered n v hv := by
    rw [hview] at hv
    rw [hnext]
    exact h.numbered n v hv
  registered n g f hv := by
    rw [hview] at hv
    exact ht.suffix.subset (h.registered n g f hv)
  pendingNodup := h.pendingNodup.sublist hpending
  pending key hk := by
    simp only [hview, hsettling]
    exact h.pending key (hpending.subset hk)
  settlingNodup := by
    rw [hsettling]
    exact h.settlingNodup
  settling n o hm := by
    rw [hsettling] at hm
    simp only [hview]
    exact h.settling n o hm
  settled n o hm := by
    simp only [hview]
    exact h.settled n o ((ht.mem rfl).mp hm)
  settlingBacked n v hm := by
    rw [hsettling] at hm
    exact ht.backed (h.settlingBacked n v hm)
  futureBacked n g v hv := by
    rw [hview] at hv
    exact ht.backed (h.futureBacked n g v hv)

theorem Heard.frame (h : Heard l) (hview : Persist l t)
    (hpending : t.pending.Sublist l.pending) (hreaders : t.readers.Sublist l.readers)
    (hgeneration : t.generation = l.generation) (ht : Grows Event.isResponse l t) : Heard t where
  taken g id body m hm := by
    obtain ⟨hp, f, hv, hid⟩ := h.taken g id body m ((ht.mem rfl).mp hm)
    obtain ⟨f', hv'⟩ := hview m g f hv
    exact ⟨fun hk => hp (hpending.subset hk), f', hv', hid⟩
  swallowed g id body hm :=
    ht.suffix.subset (h.swallowed g id body ((ht.mem rfl).mp hm))
  unmatched g id body hm hr := h.unmatched g id body ((ht.mem rfl).mp hm) (hreaders.subset hr)
  generations g id body verdict hm := by
    rw [hgeneration]
    exact h.generations g id body verdict ((ht.mem rfl).mp hm)
  readersNodup := h.readersNodup.sublist hreaders
  readers g hg := by
    rw [hgeneration]
    exact h.readers g (hreaders.subset hg)

theorem Ringed.frame (h : Ringed l) (hview : Persist l t)
    (hpending : t.pending.Sublist l.pending) (hids : t.retiredIds = l.retiredIds)
    (hset : t.retiredIdSet = l.retiredIdSet) (hretired : Grows Event.isRetired l t)
    (hswallowed : ∀ (key : Key) (body : Body),
      Event.response key.1 key.2 body .swallowed ∈ t.trace ↔
      .response key.1 key.2 body .swallowed ∈ l.trace) : Ringed t where
  retired key hm := by
    obtain ⟨hp, hk⟩ := h.retired key ((hretired.mem rfl).mp hm)
    exact ⟨fun hm => hp (hpending.subset hm), hview.known hk⟩
  retirementsNodup := by
    rw [hretired.retirements]
    exact h.retirementsNodup
  ring := by
    rw [hids, hretired.retirements]
    exact h.ring
  setNodup := by
    rw [hset]
    exact h.setNodup
  inSet key := by
    rw [hset, hids, h.inSet]
    simp only [hswallowed]

theorem Staged.frame (h : l.Staged)
    (hended : ∀ n q o, l.requests.get? n = some q → q.stage = .ended o →
      ∃ q', t.requests.get? n = some q' ∧ q'.stage = .ended o)
    (ht : Grows Event.isEnded l t) : t.Staged := by
  intro n o hm
  obtain ⟨q, hq, hstage⟩ := h n o ((ht.mem rfl).mp hm)
  exact hended n q o hq hstage

end

/-- Stages short of the end may change, requests may leave the table, readers may stop. -/
structure Calm (l t : Link) : Prop where
  next : t.nextRequestId = l.nextRequestId
  view : ∀ n, t.view n = l.view n
  ended : ∀ n q o, l.requests.get? n = some q → q.stage = .ended o →
    ∃ q', t.requests.get? n = some q' ∧ q'.stage = .ended o
  pending : t.pending.Sublist l.pending
  settling : t.settling = l.settling
  retiredIds : t.retiredIds = l.retiredIds
  retiredIdSet : t.retiredIdSet = l.retiredIdSet
  readers : t.readers.Sublist l.readers
  generation : t.generation = l.generation
  trace : t.trace = l.trace ∨ ∃ e, e.isQuiet = true ∧ t.trace = e :: l.trace

theorem Calm.grows {l t : Link} (h : Calm l t) {p : Event → Bool}
    (hp : ∀ e, e.isQuiet = true → p e = false) : Grows p l t := by
  rcases h.trace with ht | ⟨e, hq, ht⟩
  · exact .inl ht
  · exact .inr ⟨e, hp e hq, ht⟩

theorem Requests.calm {l t : Link} (h : l.Requests) (hc : Calm l t) : t.Requests where
  toTracked := h.toTracked.frame hc.next hc.view hc.pending hc.settling
    (hc.grows fun _ he => (Event.kinds_of_isQuiet he).1)
  toHeard := h.toHeard.frame (persist_of_eq hc.view) hc.pending hc.readers hc.generation
    (hc.grows fun _ he => (Event.kinds_of_isQuiet he).2.1)
  toRinged := h.toRinged.frame (persist_of_eq hc.view) hc.pending hc.retiredIds hc.retiredIdSet
    (hc.grows fun _ he => (Event.kinds_of_isQuiet he).2.2.1)
    fun _ _ => (hc.grows fun _ he => (Event.kinds_of_isQuiet he).2.1).mem rfl
  staged := Staged.frame h.staged hc.ended (hc.grows fun _ he => (Event.kinds_of_isQuiet he).2.2.2)
  right := by
    rcases hc.trace with ht | ⟨e, hq, ht⟩
    · rw [ht]
      exact h.right
    rw [ht, always_cons]
    refine ⟨?_, h.right⟩
    cases e with
    | received | answered | discarded | failed | spawned => trivial
    | _ => cases hq

/-! ## The steps that move a request -/

section

variable {l : Link}

theorem mem_drop_iff {ids : List Key} (h : ids.Nodup) (i : Nat) (key : Key) :
    key ∈ ids.drop i ↔ key ∈ ids ∧ key ∉ ids.take i := by
  have hsplit : ids.take i ++ ids.drop i = ids := List.take_append_drop i ids
  have hmem : key ∈ ids ↔ key ∈ ids.take i ∨ key ∈ ids.drop i := by
    rw [← List.mem_append, hsplit]
  rw [← hsplit] at h
  have hdisjoint := (List.nodup_append.mp h).2.2
  constructor
  · intro hd
    refine ⟨hmem.mpr (.inr hd), ?_⟩
    intro ht
    exact hdisjoint key ht key hd rfl
  · intro hm
    exact (hmem.mp hm.1).resolve_left hm.2

theorem drop_ring (limit : Nat) (keys : List Key) (key : Key) :
    ((keys.take limit).reverse ++ [key]).drop
      (((keys.take limit).reverse ++ [key]).length - limit) =
        ((key :: keys).take limit).reverse := by
  rw [← List.reverse_cons, List.drop_reverse, List.length_reverse]
  congr 1
  cases limit with
  | zero => simp
  | succ limit =>
    rw [List.take_succ_cons]
    have hlength : (keys.take (limit + 1)).length = min (limit + 1) keys.length :=
      List.length_take
    rw [List.length_cons, hlength]
    rw [show min (limit + 1) keys.length + 1 - (min (limit + 1) keys.length + 1 - (limit + 1)) =
      min limit keys.length + 1 by omega, List.take_succ_cons, List.take_take]
    congr 1
    rw [show min (min limit keys.length) (limit + 1) = min limit keys.length by omega,
      List.take_eq_take_iff]
    omega

theorem nodup_ring (limit : Nat) {keys : List Key} {key : Key} (h : (key :: keys).Nodup) :
    ((keys.take limit).reverse ++ [key]).Nodup := by
  rw [← List.reverse_cons, List.nodup_reverse]
  exact h.sublist ((List.take_sublist limit keys).cons_cons key)

theorem Requests.retireId (h : l.Requests) {key : Key} (hknown : l.Known key)
    (hpending : key ∉ l.pending) (hnew : .retired key ∉ l.trace) :
    (l.retireId key).Requests := by
  have hgrows : ∀ p : Event → Bool, p (.retired key) = false → Grows p l (l.retireId key) :=
    fun p hp => .inr ⟨.retired key, hp, rfl⟩
  have hnodup : (key :: retirements l.trace).Nodup := by
    refine List.nodup_cons.mpr ⟨?_, h.retirementsNodup⟩
    rw [mem_retirements]
    exact hnew
  have hidsNodup : (l.retiredIds ++ [key]).Nodup := by
    rw [h.ring]
    exact nodup_ring retiredIdLimit hnodup
  refine ⟨h.toTracked.frame rfl (fun _ => rfl) (List.Sublist.refl _) rfl (hgrows _ rfl),
    h.toHeard.frame (persist_of_eq fun _ => rfl) (List.Sublist.refl _) (List.Sublist.refl _) rfl
      (hgrows _ rfl), ?_, Staged.frame h.staged (fun n q o hq ho => ⟨q, hq, ho⟩) (hgrows _ rfl),
    ⟨trivial, h.right⟩⟩
  constructor
  · intro k hm
    rcases List.mem_cons.mp hm with he | hm
    · cases he
      exact ⟨hpending, hknown⟩
    · exact h.retired k hm
  · exact hnodup
  · have hring := drop_ring retiredIdLimit (retirements l.trace) key
    rw [← h.ring] at hring
    exact hring
  · exact (h.setNodup.insert (a := key)).filter _
  · intro k
    have hunmet : ∀ body, Event.response key.1 key.2 body .swallowed ∉ l.trace :=
      fun body hm => hnew (h.swallowed key.1 key.2 body hm)
    have htrace : ∀ body, Event.response k.1 k.2 body .swallowed ∈ (l.retireId key).trace ↔
        .response k.1 k.2 body .swallowed ∈ l.trace := fun body =>
      (hgrows Event.isResponse rfl).mem rfl
    simp only [htrace]
    change k ∈ (l.retiredIdSet.insert key).filter _ ↔ k ∈ (l.retiredIds ++ [key]).drop _ ∧ _
    rw [mem_drop_iff hidsNodup, List.mem_filter, List.mem_insert_iff, h.inSet, List.mem_append,
      List.mem_singleton, decide_eq_true_eq]
    by_cases hk : k = key
    · subst hk
      simp [hunmet]
    · simp only [hk, false_or, or_false]
      tauto

/-- A thread takes over the future of a request that left the table. -/
theorem Requests.hold (h : l.Requests) {n g : Nat} {o : Outcome} (hv : l.view n = some (g, none))
    (hp : keyOf g n ∉ l.pending) (hs : ∀ o', (n, o') ∉ l.settling)
    (hb : ∀ v, o = .result v → Backed l.trace n v) :
    Requests { l with settling := l.settling ++ [(n, o)] } := by
  refine ⟨⟨h.numbered, h.registered, h.pendingNodup, ?_, ?_, ?_, h.settled, ?_, h.futureBacked⟩,
    h.toHeard.frame (persist_of_eq fun _ => rfl) (List.Sublist.refl _) (List.Sublist.refl _) rfl
      (.inl rfl),
    h.toRinged.frame (persist_of_eq fun _ => rfl) (List.Sublist.refl _) rfl rfl (.inl rfl)
      fun _ _ => Iff.rfl, h.staged, h.right⟩
  · intro key hk
    obtain ⟨n', g', hv', hkey, hnone⟩ := h.pending key hk
    refine ⟨n', g', hv', hkey, ?_⟩
    intro o' hm
    rcases List.mem_append.mp hm with hm | hm
    · exact hnone o' hm
    cases List.mem_singleton.mp hm
    rw [hv] at hv'
    cases hv'
    exact hp (hkey ▸ hk)
  · rw [List.map_append, List.nodup_append]
    refine ⟨h.settlingNodup, List.nodup_singleton _, ?_⟩
    intro a ha b hb' he
    obtain ⟨⟨a', o'⟩, hm, rfl⟩ := List.mem_map.mp ha
    cases List.mem_singleton.mp hb'
    cases he
    exact hs o' hm
  · intro n' o' hm
    rcases List.mem_append.mp hm with hm | hm
    · exact h.settling n' o' hm
    · cases List.mem_singleton.mp hm
      exact ⟨g, hv⟩
  · intro n' v hm
    rcases List.mem_append.mp hm with hm | hm
    · exact h.settlingBacked n' v hm
    · cases List.mem_singleton.mp hm
      exact hb v rfl

variable {id : RequestId}

theorem Requests.hear (h : l.Requests) {g : Nat} {body : Body}
    {verdict : Verdict} (hright : RequestRight (.response g id body verdict) l.trace)
    (hg : g ≤ l.generation) (htaken : ∀ m, verdict = .taken m →
      (g, id) ∉ l.pending ∧ ∃ f, l.view m = some (g, f) ∧ id = .number m)
    (hmet : verdict ≠ .swallowed) (hgone : verdict = .unmatched → g ∉ l.readers) :
    Requests { l with trace := .response g id body verdict :: l.trace } := by
  have hgrows : ∀ p : Event → Bool, p (.response g id body verdict) = false →
      Grows p l { l with trace := .response g id body verdict :: l.trace } :=
    fun p hp => .inr ⟨_, hp, rfl⟩
  refine ⟨h.toTracked.frame rfl (fun _ => rfl) (List.Sublist.refl _) rfl (hgrows _ rfl), ?_,
    h.toRinged.frame (persist_of_eq fun _ => rfl) (List.Sublist.refl _) rfl rfl (hgrows _ rfl) ?_,
    Staged.frame h.staged (fun n q o hq ho => ⟨q, hq, ho⟩) (hgrows _ rfl), ⟨hright, h.right⟩⟩
  · refine ⟨?_, ?_, ?_, ?_, h.readersNodup, h.readers⟩
    · intro g' id' body' m hm
      rcases List.mem_cons.mp hm with he | hm
      · cases he
        exact htaken m rfl
      · exact h.taken g' id' body' m hm
    · intro g' id' body' hm
      rcases List.mem_cons.mp hm with he | hm
      · cases he
        exact absurd rfl hmet
      · exact List.mem_cons_of_mem _ (h.swallowed g' id' body' hm)
    · intro g' id' body' hm
      rcases List.mem_cons.mp hm with he | hm
      · cases he
        exact hgone rfl
      · exact h.unmatched g' id' body' hm
    · intro g' id' body' verdict' hm
      rcases List.mem_cons.mp hm with he | hm
      · cases he
        exact hg
      · exact h.generations g' id' body' verdict' hm
  · intro key body'
    rw [List.mem_cons]
    constructor
    · rintro (he | hm)
      · cases he
        exact absurd rfl hmet
      · exact hm
    · exact Or.inr

theorem Requests.swallow (h : l.Requests) {g : Nat} (body : Body)
    (hset : (g, id) ∈ l.retiredIdSet) (hg : g ≤ l.generation) :
    Requests { l with
      retiredIdSet := l.retiredIdSet.erase (g, id)
      trace := .response g id body .swallowed :: l.trace } := by
  obtain ⟨hids, hfirst⟩ := (h.inSet (g, id)).mp hset
  have hretired : .retired (g, id) ∈ l.trace := by
    rw [h.ring, List.mem_reverse] at hids
    exact mem_retirements.mp (List.mem_of_mem_take hids)
  have hgrows : ∀ p : Event → Bool, p (.response g id body .swallowed) = false →
      Grows p l { l with
        retiredIdSet := l.retiredIdSet.erase (g, id)
        trace := .response g id body .swallowed :: l.trace } :=
    fun p hp => .inr ⟨_, hp, rfl⟩
  refine ⟨h.toTracked.frame rfl (fun _ => rfl) (List.Sublist.refl _) rfl (hgrows _ rfl), ?_, ?_,
    Staged.frame h.staged (fun n q o hq ho => ⟨q, hq, ho⟩) (hgrows _ rfl), ⟨?_, h.right⟩⟩
  · refine ⟨?_, ?_, ?_, ?_, h.readersNodup, h.readers⟩
    · intro g' id' body' m hm
      rcases List.mem_cons.mp hm with he | hm
      · cases he
      · exact h.taken g' id' body' m hm
    · intro g' id' body' hm
      rcases List.mem_cons.mp hm with he | hm
      · cases he
        exact List.mem_cons_of_mem _ hretired
      · exact List.mem_cons_of_mem _ (h.swallowed g' id' body' hm)
    · intro g' id' body' hm
      rcases List.mem_cons.mp hm with he | hm
      · cases he
      · exact h.unmatched g' id' body' hm
    · intro g' id' body' verdict' hm
      rcases List.mem_cons.mp hm with he | hm
      · cases he
        exact hg
      · exact h.generations g' id' body' verdict' hm
  · have hretirements := (hgrows Event.isRetired rfl).retirements
    refine ⟨?_, ?_, ?_, h.setNodup.erase _, ?_⟩
    · intro key hm
      exact h.retired key (((hgrows Event.isRetired rfl).mem rfl).mp hm)
    · rw [hretirements]
      exact h.retirementsNodup
    · rw [hretirements]
      exact h.ring
    · intro key
      rw [h.setNodup.mem_erase_iff, h.inSet key]
      constructor
      · rintro ⟨hne, hin, hfirst'⟩
        refine ⟨hin, ?_⟩
        intro body' hm
        rcases List.mem_cons.mp hm with he | hm
        · cases he
          exact hne rfl
        · exact hfirst' body' hm
      · rintro ⟨hin, hfirst'⟩
        refine ⟨?_, hin, fun body' hm => hfirst' body' (List.mem_cons_of_mem _ hm)⟩
        intro he
        subst he
        exact hfirst' body List.mem_cons_self
  · refine ⟨?_, fun _ => ⟨hretired, hfirst⟩, fun _ => rfl⟩
    intro m hm
    cases hm

theorem Requests.log (h : l.Requests) {e : Event} (he : RequestRight e l.trace)
    (hresponse : e.isResponse = false) (hsettled : e.isSettled = false)
    (hretired : e.isRetired = false) (hended : e.isEnded = false) :
    Requests { l with trace := e :: l.trace } := by
  have hgrows : ∀ p : Event → Bool, p e = false →
      Grows p l { l with trace := e :: l.trace } := fun p hp => .inr ⟨e, hp, rfl⟩
  exact ⟨h.toTracked.frame rfl (fun _ => rfl) (List.Sublist.refl _) rfl (hgrows _ hsettled),
    h.toHeard.frame (persist_of_eq fun _ => rfl) (List.Sublist.refl _) (List.Sublist.refl _) rfl
      (hgrows _ hresponse),
    h.toRinged.frame (persist_of_eq fun _ => rfl) (List.Sublist.refl _) rfl rfl
      (hgrows _ hretired) fun _ _ => (hgrows _ hresponse).mem rfl,
    Staged.frame h.staged (fun n q o hq ho => ⟨q, hq, ho⟩) (hgrows _ hended), ⟨he, h.right⟩⟩

theorem get?_setStage (n m : Nat) (stage : Stage) :
    (l.setStage n stage).requests.get? m =
      if m = n then (l.requests.get? m).map fun q => { q with stage := stage }
      else l.requests.get? m :=
  Dict.get?_update _ _ _ _

@[simp] theorem view_setStage (n m : Nat) (stage : Stage) :
    (l.setStage n stage).view m = l.view m := by
  unfold view
  rw [get?_setStage]
  split
  · rw [Option.map_map]
    rfl
  · rfl

variable {q : Request}

theorem view_of_get? {n : Nat} (h : l.requests.get? n = some q) :
    l.view n = some (q.generation, q.future) := by
  unfold view
  rw [h]
  rfl

theorem calm_setStage {n : Nat} (hq : l.requests.get? n = some q)
    (hopen : ∀ o, q.stage ≠ .ended o) (stage : Stage) : Calm l (l.setStage n stage) where
  next := rfl
  view m := view_setStage n m stage
  ended m q' o hm ho := by
    rw [get?_setStage]
    by_cases hmn : m = n
    · subst hmn
      rw [hq] at hm
      cases hm
      exact absurd ho (hopen o)
    · rw [if_neg hmn]
      exact ⟨q', hm, ho⟩
  pending := List.Sublist.refl _
  settling := rfl
  retiredIds := rfl
  retiredIdSet := rfl
  readers := List.Sublist.refl _
  generation := rfl
  trace := .inl rfl

/-- The call returns or raises, for the first time. -/
theorem Requests.endRequest (h : l.Requests) {n : Nat} {o : Outcome}
    (hq : l.requests.get? n = some q) (hopen : ∀ o, q.stage ≠ .ended o)
    (hb : ∀ v, o = .result v → Backed l.trace n v) : (l.endRequest n o).Requests := by
  have hstage := h.calm (calm_setStage hq hopen (.ended o))
  have hgrows : ∀ p : Event → Bool, p (.ended n o) = false →
      Grows p (l.setStage n (.ended o)) (l.endRequest n o) := fun p hp => .inr ⟨_, hp, rfl⟩
  refine ⟨hstage.toTracked.frame rfl (fun _ => rfl) (List.Sublist.refl _) rfl (hgrows _ rfl),
    hstage.toHeard.frame (persist_of_eq fun _ => rfl) (List.Sublist.refl _) (List.Sublist.refl _)
      rfl (hgrows _ rfl),
    hstage.toRinged.frame (persist_of_eq fun _ => rfl) (List.Sublist.refl _) rfl rfl
      (hgrows _ rfl) fun _ _ => (hgrows Event.isResponse rfl).mem rfl, ?_, ⟨⟨?_, hb⟩, h.right⟩⟩
  · intro m o' hm
    change ∃ q', (l.setStage n (.ended o)).requests.get? m = some q' ∧ _
    rcases List.mem_cons.mp hm with he | hm
    · cases he
      rw [get?_setStage, if_pos rfl, hq]
      exact ⟨_, rfl, rfl⟩
    · exact hstage.staged m o' hm
  · intro earlier hm
    obtain ⟨q', hq', ho⟩ := h.staged n earlier hm
    rw [hq] at hq'
    cases hq'
    exact hopen earlier ho

theorem view_settled (i m : Nat) {n g : Nat} (o : Outcome) (hv : l.view n = some (g, none)) :
    (l.settled i n o).view m = if m = n then some (g, some o) else l.view m := by
  unfold view settled at *
  simp only [Dict.get?_update]
  by_cases hm : m = n
  · subst hm
    obtain ⟨q, hq, hqv⟩ := Option.map_eq_some_iff.mp hv
    obtain ⟨hg, hf⟩ := Prod.mk.inj hqv
    simp [hq, hg, hf]
  · rw [if_neg hm, if_neg hm]

section

variable (h : l.Requests)

include h

theorem settling_unique {i n : Nat} {o o' : Outcome}
    (hget : l.settling[i]? = some (n, o)) : (n, o') ∉ l.settling.eraseIdx i := by
  intro hm
  obtain ⟨j, hne, hj⟩ := List.mem_eraseIdx_iff_getElem?.mp hm
  obtain ⟨hi, hiv⟩ := List.getElem?_eq_some_iff.mp hget
  obtain ⟨hj, hjv⟩ := List.getElem?_eq_some_iff.mp hj
  have hi' : i < (l.settling.map Prod.fst).length := by rw [List.length_map]; exact hi
  have hj' : j < (l.settling.map Prod.fst).length := by rw [List.length_map]; exact hj
  have hsame : (l.settling.map Prod.fst)[j] = (l.settling.map Prod.fst)[i] := by
    rw [List.getElem_map, List.getElem_map, hiv, hjv]
  exact hne ((h.settlingNodup.getElem_inj_iff).mp hsame)

theorem Requests.settle {i : Nat} {t : Link} (hs : l.settle i = some t) :
    t.Requests := by
  unfold Link.settle at hs
  split at hs
  case h_2 => cases hs
  rename_i n o hget
  cases hs
  have hmem : (n, o) ∈ l.settling := List.mem_of_getElem? hget
  obtain ⟨g, hv⟩ := h.settling n o hmem
  have hsub : (l.settling.eraseIdx i).Sublist l.settling := List.eraseIdx_sublist _ _
  have hview := fun m => view_settled i m o hv
  have hpersist : Persist l (l.settled i n o) := by
    intro m g' f hm
    rw [hview]
    by_cases he : m = n
    · rw [if_pos he]
      subst he
      rw [hv] at hm
      cases hm
      exact ⟨some o, rfl⟩
    · rw [if_neg he]
      exact ⟨f, hm⟩
  have hgrows : ∀ p : Event → Bool, p (.settled n o) = false →
      Grows p l (l.settled i n o) := fun p hp => .inr ⟨_, hp, rfl⟩
  refine ⟨?_, h.toHeard.frame hpersist (List.Sublist.refl _) (List.Sublist.refl _) rfl
    (hgrows _ rfl), h.toRinged.frame hpersist (List.Sublist.refl _) rfl rfl (hgrows _ rfl)
    fun _ _ => (hgrows Event.isResponse rfl).mem rfl,
    Staged.frame h.staged ?_ (hgrows _ rfl), ⟨?_, h.right⟩⟩
  · refine ⟨?_, ?_, h.pendingNodup, ?_, h.settlingNodup.sublist (hsub.map Prod.fst), ?_, ?_, ?_, ?_⟩
    · intro m v hm
      rw [hview] at hm
      split at hm
      · rename_i he
        rw [he]
        exact h.numbered n _ hv
      · exact h.numbered m v hm
    · intro m g' f hm
      obtain ⟨f', hf'⟩ : ∃ f', l.view m = some (g', f') := by
        rw [hview] at hm
        split at hm
        · rename_i he
          cases hm
          exact ⟨none, he ▸ hv⟩
        · exact ⟨f, hm⟩
      exact List.mem_cons_of_mem _ (h.registered m g' f' hf')
    · intro key hk
      obtain ⟨m, g', hm, hkey, hnone⟩ := h.pending key hk
      have hne : m ≠ n := fun he => hnone o (he ▸ hmem)
      refine ⟨m, g', ?_, hkey, fun o' ho => hnone o' (hsub.subset ho)⟩
      rw [hview, if_neg hne]
      exact hm
    · intro m o' ho
      have hne : m ≠ n := fun he => settling_unique h hget (he ▸ ho)
      obtain ⟨g', hm⟩ := h.settling m o' (hsub.subset ho)
      refine ⟨g', ?_⟩
      rw [hview, if_neg hne]
      exact hm
    · intro m o' hm
      rcases List.mem_cons.mp hm with he | hm
      · cases he
        exact ⟨g, by rw [hview, if_pos rfl]⟩
      obtain ⟨g', hv'⟩ := h.settled m o' hm
      have hne : m ≠ n := by
        intro he
        rw [he, hv] at hv'
        cases hv'
      exact ⟨g', by rw [hview, if_neg hne, hv']⟩
    · intro m v ho
      exact (h.settlingBacked m v (hsub.subset ho)).cons _
    · intro m g' v hm
      rw [hview] at hm
      split at hm
      · rename_i he
        cases hm
        exact (h.settlingBacked m v (he ▸ hmem)).cons _
      · exact (h.futureBacked m g' v hm).cons _
  · intro m q o' hm ho
    change ∃ q', (l.requests.update n _).get? m = some q' ∧ _
    rw [Dict.get?_update]
    split
    · rw [hm]
      exact ⟨_, rfl, ho⟩
    · exact ⟨q, hm, ho⟩
  · intro earlier hm
    obtain ⟨g', hv'⟩ := h.settled n earlier hm
    rw [hv] at hv'
    cases hv'

theorem Requests.register {env : Settings} {g n : Nat} {method : String}
    {requireReady : Bool} {t : Link} (hr : l.register env g method requireReady = .ok (n, t)) :
    t.Requests := by
  obtain ⟨-, hn, ht⟩ := register_spec hr
  have hfresh : ∀ v, l.view n ≠ some v := by
    intro v hv
    have hlt := h.numbered n v hv
    omega
  have hview : ∀ m, t.view m = if m = n then some (g, none) else l.view m := by
    intro m
    rw [ht]
    unfold view
    simp only [Dict.get?_set]
    split
    · rfl
    · rfl
  have hne : ∀ m v, l.view m = some v → m ≠ n := fun m v hv he => hfresh v (he ▸ hv)
  have hpersist : Persist l t := by
    intro m g' f hv
    exact ⟨f, by rw [hview, if_neg (hne m _ hv), hv]⟩
  have hunknown : ¬ l.Known (keyOf g n) := by
    rintro ⟨m, g', f, hv, hkey⟩
    exact hne m _ hv (keyOf_inj.mp hkey).2.symm
  have hnew : keyOf g n ∉ l.pending := by
    intro hm
    obtain ⟨m, g', hv, hkey, -⟩ := h.pending _ hm
    exact hunknown ⟨m, g', none, hv, hkey⟩
  have hgrows : ∀ p : Event → Bool, p (.registered g n) = false → Grows p l t :=
    fun p hp => .inr ⟨.registered g n, hp, by rw [ht]⟩
  have hpending : t.pending = l.pending ++ [keyOf g n] := by rw [ht]
  have hsettling : t.settling = l.settling := by rw [ht]
  refine ⟨⟨?_, ?_, ?_, ?_, ?_, ?_, ?_, ?_, ?_⟩, ⟨?_, ?_, ?_, ?_, ?_, ?_⟩, ⟨?_, ?_, ?_, ?_, ?_⟩,
    ?_, ?_⟩
  · intro m v hm
    rw [hview] at hm
    rw [ht]
    change m < n + 1
    split at hm
    · omega
    · have hlt := h.numbered m v hm
      omega
  · intro m g' f hm
    rw [hview] at hm
    rw [ht]
    split at hm
    · rename_i he
      cases hm
      rw [he]
      exact List.mem_cons_self
    · exact List.mem_cons_of_mem _ (h.registered m g' f hm)
  · rw [hpending, List.nodup_append]
    refine ⟨h.pendingNodup, List.nodup_singleton _, ?_⟩
    intro a ha b hb he
    cases List.mem_singleton.mp hb
    exact hnew (he ▸ ha)
  · intro key hk
    rw [hpending] at hk
    rw [hsettling]
    rcases List.mem_append.mp hk with hk | hk
    · obtain ⟨m, g', hv, hkey, hnone⟩ := h.pending key hk
      exact ⟨m, g', by rw [hview, if_neg (hne m _ hv), hv], hkey, hnone⟩
    refine ⟨n, g, by rw [hview, if_pos rfl], List.mem_singleton.mp hk, ?_⟩
    intro o hm
    obtain ⟨g', hv⟩ := h.settling n o hm
    exact hfresh _ hv
  · rw [hsettling]
    exact h.settlingNodup
  · intro m o hm
    rw [hsettling] at hm
    obtain ⟨g', hv⟩ := h.settling m o hm
    exact ⟨g', by rw [hview, if_neg (hne m _ hv), hv]⟩
  · intro m o hm
    obtain ⟨g', hv⟩ := h.settled m o (((hgrows Event.isSettled rfl).mem rfl).mp hm)
    exact ⟨g', by rw [hview, if_neg (hne m _ hv), hv]⟩
  · intro m v hm
    rw [hsettling] at hm
    exact (hgrows Event.isSettled rfl).backed (h.settlingBacked m v hm)
  · intro m g' v hm
    rw [hview] at hm
    split at hm
    · cases hm
    · exact (hgrows Event.isSettled rfl).backed (h.futureBacked m g' v hm)
  · intro g' id body m hm
    obtain ⟨hp, f, hv, hid⟩ := h.taken g' id body m (((hgrows Event.isResponse rfl).mem rfl).mp hm)
    refine ⟨?_, f, by rw [hview, if_neg (hne m _ hv), hv], hid⟩
    rw [hpending, List.mem_append, List.mem_singleton]
    rintro (hk | hk)
    · exact hp hk
    · subst hid
      exact hne m _ hv (keyOf_inj.mp hk).2
  · intro g' id body hm
    rw [ht]
    exact List.mem_cons_of_mem _
      (h.swallowed g' id body (((hgrows Event.isResponse rfl).mem rfl).mp hm))
  · intro g' id body hm
    rw [ht]
    exact h.unmatched g' id body (((hgrows Event.isResponse rfl).mem rfl).mp hm)
  · intro g' id body verdict hm
    rw [ht]
    exact h.generations g' id body verdict (((hgrows Event.isResponse rfl).mem rfl).mp hm)
  · rw [ht]
    exact h.readersNodup
  · rw [ht]
    exact h.readers
  · intro key hm
    obtain ⟨hp, hk⟩ := h.retired key (((hgrows Event.isRetired rfl).mem rfl).mp hm)
    refine ⟨?_, hpersist.known hk⟩
    rw [hpending, List.mem_append, List.mem_singleton]
    rintro (hm | he)
    · exact hp hm
    · exact hunknown (he ▸ hk)
  · rw [(hgrows Event.isRetired rfl).retirements]
    exact h.retirementsNodup
  · rw [(hgrows Event.isRetired rfl).retirements, ht]
    exact h.ring
  · rw [ht]
    exact h.setNodup
  · intro key
    have hmem : ∀ body, Event.response key.1 key.2 body .swallowed ∈ t.trace ↔
        .response key.1 key.2 body .swallowed ∈ l.trace := fun body =>
      (hgrows Event.isResponse rfl).mem rfl
    simp only [hmem]
    rw [ht]
    exact h.inSet key
  · intro m o hm
    obtain ⟨q, hq, ho⟩ := h.staged m o (((hgrows Event.isEnded rfl).mem rfl).mp hm)
    have hmn : m ≠ n := hne m _ (view_of_get? hq)
    refine ⟨q, ?_, ho⟩
    rw [ht]
    change (l.requests.set n _).get? m = some q
    rw [Dict.get?_set, if_neg hmn, hq]
  · rw [ht]
    exact ⟨trivial, h.right⟩

theorem Requests.spawn : l.spawn.Requests := by
  have hgrows : ∀ p : Event → Bool, p (.spawned (l.generation + 1)) = false → Grows p l l.spawn :=
    fun p hp => .inr ⟨_, hp, rfl⟩
  have hmem := fun e (he : Event.isResponse e = true) =>
    (hgrows Event.isResponse rfl).mem he
  refine ⟨h.toTracked.frame rfl (fun _ => rfl) (List.Sublist.refl _) rfl (hgrows _ rfl), ?_,
    h.toRinged.frame (persist_of_eq fun _ => rfl) (List.Sublist.refl _) rfl rfl (hgrows _ rfl)
      fun _ _ => hmem _ rfl,
    Staged.frame h.staged (fun n q o hq ho => ⟨q, hq, ho⟩) (hgrows _ rfl), ⟨trivial, h.right⟩⟩
  refine ⟨?_, ?_, ?_, ?_, ?_, ?_⟩
  · intro g id body m hm
    exact h.taken g id body m ((hmem _ rfl).mp hm)
  · intro g id body hm
    exact List.mem_cons_of_mem _ (h.swallowed g id body ((hmem _ rfl).mp hm))
  · intro g id body hm hr
    have hg := h.generations g id body _ ((hmem _ rfl).mp hm)
    rcases List.mem_cons.mp hr with he | hr
    · omega
    · exact h.unmatched g id body ((hmem _ rfl).mp hm) hr
  · intro g id body verdict hm
    have hg := h.generations g id body verdict ((hmem _ rfl).mp hm)
    change g ≤ l.generation + 1
    omega
  · refine List.nodup_cons.mpr ⟨?_, h.readersNodup⟩
    intro hr
    have hg := h.readers _ hr
    omega
  · intro g hr
    change g ≤ l.generation + 1
    rcases List.mem_cons.mp hr with he | hr
    · omega
    · have hg := h.readers g hr
      omega

theorem Requests.unlist {pending : List Key}
    (hp : pending.Sublist l.pending) : Requests { l with pending := pending } :=
  h.calm ⟨rfl, fun _ => rfl, fun _ q _ hq ho => ⟨q, hq, ho⟩, hp, rfl, rfl, rfl,
    List.Sublist.refl _, rfl, .inl rfl⟩

theorem Requests.pending_spec {key : Key} (hk : key ∈ l.pending) :
    ∃ n g, l.view n = some (g, none) ∧ key = keyOf g n ∧ key.number = n ∧
      (∀ o, (n, o) ∉ l.settling) ∧ .retired key ∉ l.trace ∧
      key ∉ l.pending.erase key := by
  obtain ⟨n, g, hv, hkey, hs⟩ := h.pending key hk
  refine ⟨n, g, hv, hkey, by rw [hkey, number_keyOf], hs, ?_, h.pendingNodup.not_mem_erase⟩
  intro hm
  exact (h.retired key hm).1 hk

theorem Requests.failPendingKey {key : Key} (hk : key ∈ l.pending)
    (error : ClientError) : (l.failPendingKey key error).Requests := by
  obtain ⟨n, g, hv, hkey, hn, hs, hnew, hgone⟩ := h.pending_spec hk
  have hunlisted := h.unlist (List.erase_sublist (a := key) (l := l.pending))
  have hretired := hunlisted.retireId ⟨n, g, none, hv, hkey⟩ hgone hnew
  unfold Link.failPendingKey
  rw [hn]
  exact hretired.hold hv (hkey ▸ hgone) hs fun v hr => by cases hr

end

theorem failPendingKeys_spec (keys : List Key) (error : ClientError) (h : l.Requests)
    (hk : ∀ key ∈ keys, key ∈ l.pending) (hnodup : keys.Nodup) :
    (keys.foldl (fun l key => l.failPendingKey key error) l).Requests := by
  induction keys generalizing l with
  | nil => exact h
  | cons key keys ih =>
    obtain ⟨hnew, hnodup⟩ := List.nodup_cons.mp hnodup
    refine ih (h.failPendingKey (hk key List.mem_cons_self) error) ?_ hnodup
    intro k hm
    have hne : k ≠ key := fun he => hnew (he ▸ hm)
    exact (List.mem_erase_of_ne hne).mpr (hk k (List.mem_cons_of_mem key hm))

theorem Requests.failGenerationPending (h : l.Requests) (g : Nat) (error : ClientError) :
    (l.failGenerationPending g error).Requests :=
  failPendingKeys_spec _ error h (fun _ hm => (List.mem_filter.mp hm).1) (h.pendingNodup.filter _)

/-- `close` takes over every future that is left. -/
theorem Requests.failAllPending (h : l.Requests) : l.failAllPending.Requests := by
  have hkeys : ∀ keys : List Key, ∀ l : Link, l.Requests →
      (∀ key ∈ keys, ∃ n g, l.view n = some (g, none) ∧ key = keyOf g n ∧
        key ∉ l.pending ∧ ∀ o, (n, o) ∉ l.settling) → keys.Nodup →
      Requests { l with settling := l.settling ++ keys.map fun key =>
        (key.number, .raised .unavailable) } := by
    intro keys
    induction keys with
    | nil =>
      intro l hl _ _
      rw [List.map_nil, List.append_nil]
      exact hl
    | cons key keys ih =>
      intro l hl hk hnodup
      obtain ⟨hfresh, hnodup⟩ := List.nodup_cons.mp hnodup
      obtain ⟨n, g, hv, hkey, hp, hs⟩ := hk key List.mem_cons_self
      have hheld := hl.hold (o := .raised .unavailable) hv (hkey ▸ hp) hs fun v hr => by cases hr
      have hrest := ih _ hheld ?_ hnodup
      · rw [List.append_assoc, List.singleton_append] at hrest
        rw [List.map_cons]
        have hn : key.number = n := by rw [hkey, number_keyOf]
        rw [hn]
        exact hrest
      intro k hm
      obtain ⟨m, g', hv', hkey', hp', hs'⟩ := hk k (List.mem_cons_of_mem key hm)
      refine ⟨m, g', hv', hkey', hp', ?_⟩
      intro o ho
      rcases List.mem_append.mp ho with ho | ho
      · exact hs' o ho
      cases List.mem_singleton.mp ho
      have hv' : l.view n = some (g', none) := hv'
      rw [hv] at hv'
      cases hv'
      exact hfresh (hkey ▸ hkey' ▸ hm)
  refine hkeys l.pending { l with pending := [] } (h.unlist (List.nil_sublist _)) ?_ h.pendingNodup
  intro key hk
  obtain ⟨n, g, hv, hkey, hs⟩ := h.pending key hk
  exact ⟨n, g, hv, hkey, List.not_mem_nil, hs⟩

section

variable (h : l.Requests) {n : Nat} (hq : l.requests.get? n = some q)
  (hopen : ∀ o, q.stage ≠ .ended o)

include h hq hopen

theorem Requests.withdraw :
    (l.withdraw n q).Requests := by
  unfold Link.withdraw
  simp only
  split
  · rename_i hk
    obtain ⟨m, g, hv, hkey, -, hs, hnew, hgone⟩ := h.pending_spec hk
    have hretired := (h.unlist List.erase_sublist).retireId ⟨m, g, none, hv, hkey⟩ hgone hnew
    have htimed := hretired.log (e := .timedOut q.generation n) ⟨_, rfl⟩ rfl rfl rfl rfl
    exact htimed.endRequest hq hopen fun v hr => by cases hr
  · exact h.calm (calm_setStage hq hopen _)

theorem Requests.conclude :
    (l.conclude n q).Requests := by
  refine h.endRequest hq hopen ?_
  intro v hr
  have hv := view_of_get? hq
  cases hf : q.future with
  | none =>
    rw [hf] at hr
    cases hr
  | some o =>
    rw [hf] at hr hv
    change o = .result v at hr
    exact h.futureBacked n q.generation v (hr ▸ hv)

theorem Requests.abandon (error : ClientError) :
    (l.abandon n q error).Requests :=
  (h.unlist List.erase_sublist).endRequest hq hopen fun v hr => by cases hr

end

def retiredSince (key : Key) (t : List Event) : Nat :=
  countSince (fun e => e = .retired key) Event.isRetired t

/-- A late line finds its key in the set, unless exactly as many ids as the ring holds
were retired since. -/
theorem Requests.late_mem (h : l.Requests) {g : Nat}
    (hlate : IsLate l.trace g id) (hcount : retiredSince (g, id) l.trace ≠ retiredIdLimit) :
    (g, id) ∈ l.retiredIdSet := by
  obtain ⟨n, mid, earlier, rfl, ht, hmid, hle⟩ := hlate
  have hright := h.right
  rw [ht] at hright
  have htimed := hright.of_suffix (List.suffix_append mid _)
  obtain ⟨before, rfl⟩ := htimed.1
  have hretirements : retirements l.trace = retirements mid ++ keyOf g n :: retirements before := by
    rw [ht, retirements_append]
    rfl
  have hnodup := h.retirementsNodup
  rw [hretirements] at hnodup
  have hfresh : keyOf g n ∉ retirements mid := by
    intro hm
    exact (List.nodup_append.mp hnodup).2.2 _ hm _ List.mem_cons_self rfl
  have hsince : retiredSince (keyOf g n) l.trace = mid.countP Event.isRetired := by
    have hlater : ∀ x ∈ mid ++ [Event.timedOut g n], decide (x = .retired (keyOf g n)) = false := by
      intro x hx
      rw [decide_eq_false_iff_not]
      rintro rfl
      rcases List.mem_append.mp hx with hx | hx
      · exact hfresh (mem_retirements.mpr hx)
      · cases List.mem_singleton.mp hx
    have hcount := countSince_append_cons (fun e => decide (e = .retired (keyOf g n)))
      Event.isRetired _ before (.retired (keyOf g n)) hlater (decide_eq_true rfl)
    rw [List.append_assoc, List.singleton_append, ← ht, List.countP_append] at hcount
    exact hcount
  have hlt : (retirements mid).length < retiredIdLimit := by
    rw [length_retirements]
    change retiredSince (keyOf g n) l.trace ≠ _ at hcount
    omega
  rw [h.inSet]
  constructor
  · rw [h.ring, List.mem_reverse, hretirements, List.take_append]
    refine List.mem_append_right _ ?_
    obtain ⟨d, hd⟩ : ∃ d, retiredIdLimit - (retirements mid).length = d + 1 :=
      ⟨retiredIdLimit - (retirements mid).length - 1, by omega⟩
    rw [hd, List.take_succ_cons]
    exact List.mem_cons_self
  intro body hm
  have hm : Event.response g (.number n) body .swallowed ∈ l.trace := hm
  rw [ht] at hm
  rcases List.mem_append.mp hm with hm | hm
  · exact hmid body _ hm
  -- a swallowed line before the timeout would have retired the key twice
  have hm : Event.response g (.number n) body .swallowed ∈ before := by
    rcases List.mem_cons.mp hm with he | hm
    · cases he
    rcases List.mem_cons.mp hm with he | hm
    · cases he
    · exact hm
  obtain ⟨s, p, hsplit⟩ := List.append_of_mem hm
  have hswallowed := (always_iff before).mp (htimed.2.2) _ p ⟨s, hsplit.symm⟩
  have hretired := (hswallowed.2.1 rfl).1
  have hagain : keyOf g n ∈ retirements before := by
    rw [mem_retirements, hsplit]
    exact List.mem_append_right _ (List.mem_cons_of_mem _ hretired)
  exact (List.nodup_cons.mp (List.nodup_append.mp hnodup).2.1).1 hagain

theorem Requests.first_response (h : l.Requests) {g n : Nat} (hg : g ∈ l.readers)
    (hk : keyOf g n ∈ l.pending) (body : Body) (verdict : Verdict) :
    .response g (.number n) body verdict ∉ l.trace := by
  intro hm
  cases verdict with
  | taken m => exact (h.taken g (.number n) body m hm).1 hk
  | swallowed => exact (h.retired _ (h.swallowed g (.number n) body hm)).1 hk
  | unmatched => exact h.unmatched g (.number n) body hm hg

theorem outcomeOf_result {env : Settings} {method : String} {body : Body} {v : Json} {raises : Bool}
    (h : env.outcomeOf method body = (.result v, raises)) : body = .result v := by
  unfold Settings.outcomeOf at h
  cases body with
  | result value =>
    simp only at h
    split at h
    · cases h
      rfl
    · cases h
  | error payload =>
    simp only at h
    split at h
    · split at h
      · cases h
      · cases h
    · cases h

theorem calm_readerRaises (l : Link) (g : Nat) (error : ClientError) :
    Calm l (l.readerRaises g error) :=
  ⟨rfl, fun _ => rfl, fun _ q _ hq ho => ⟨q, hq, ho⟩, List.Sublist.refl _, rfl, rfl, rfl,
    List.erase_sublist, rfl, .inl rfl⟩

theorem Requests.routeResponse (h : l.Requests) {env : Settings} {g : Nat}
    (body : Body) (hg : g ∈ l.readers)
    (hcount : .retired (g, id) ∈ l.trace → retiredSince (g, id) l.trace ≠ retiredIdLimit) :
    (l.routeResponse env g id body).Requests := by
  have hgen := h.readers g hg
  have hlate : IsLate l.trace g id → (g, id) ∈ l.retiredIdSet ∧ .retired (g, id) ∈ l.trace := by
    intro hlate
    have hretired : .retired (g, id) ∈ l.trace := by
      obtain ⟨n, mid, earlier, rfl, ht, -, -⟩ := hlate
      have hright := h.right
      rw [ht] at hright
      obtain ⟨before, he⟩ := (hright.of_suffix (List.suffix_append mid _)).1
      rw [ht, he]
      simp [keyOf]
    exact ⟨h.late_mem hlate (hcount hretired), hretired⟩
  unfold Link.routeResponse
  simp only
  by_cases hk : (g, id) ∈ l.pending
  · rw [if_pos hk]
    obtain ⟨n, g', hv, hkey, hn, hs, hnew, hgone⟩ := h.pending_spec hk
    have hid : id = .number n ∧ g' = g := by
      have hpair := Prod.mk.inj hkey
      exact ⟨hpair.2, hpair.1.symm⟩
    obtain ⟨rfl, rfl⟩ := hid
    rw [hn]
    generalize hout : env.outcomeOf ((l.requests.get? n).elim "" Request.method) body = result
    obtain ⟨outcome, raises⟩ := result
    have hregistered := h.registered n g' none hv
    have hright : RequestRight (.response g' (.number n) body (.taken n)) l.trace := by
      refine ⟨?_, ?_, fun hl => absurd (hlate hl).2 hnew⟩
      · intro m hm
        cases hm
        exact ⟨rfl, hregistered⟩
      · intro hm
        cases hm
    have htaken :
      ∀ m, Verdict.taken n = .taken m → (g', .number n) ∉ l.pending.erase (g', .number n) ∧
        ∃ f, l.view m = some (g', f) ∧ RequestId.number n = .number m := by
      intro m hm
      cases hm
      exact ⟨hgone, none, hv, rfl⟩
    have hheard := (h.unlist List.erase_sublist).hear hright hgen htaken
      (fun hm => by cases hm) (fun hm => by cases hm)
    have hheld := hheard.hold (o := outcome) hv hgone hs ?_
    · simp only
      split
      · exact hheld.calm (calm_readerRaises _ _ _)
      · exact hheld
    · intro v hr
      rw [hr] at hout
      rw [outcomeOf_result hout]
      exact ⟨g', l.trace, List.suffix_rfl, hregistered,
        fun body' verdict => h.first_response hg hk body' verdict⟩
  · rw [if_neg hk]
    by_cases hset : (g, id) ∈ l.retiredIdSet
    · rw [if_pos hset]
      exact h.swallow body hset hgen
    rw [if_neg hset]
    have hstopped := h.calm (calm_readerRaises l g .protocol)
    have hright : RequestRight (.response g id body .unmatched) l.trace := by
      refine ⟨?_, ?_, fun hl => absurd (hlate hl).1 hset⟩
      · intro m hm
        cases hm
      · intro hm
        cases hm
    exact hstopped.hear hright hgen (fun m hm => by cases hm) (fun hm => by cases hm)
      fun _ => h.readersNodup.not_mem_erase

theorem calm_of {t : Link} (hnext : t.nextRequestId = l.nextRequestId)
    (hrequests : t.requests = l.requests) (hpending : t.pending = l.pending)
    (hsettling : t.settling = l.settling) (hids : t.retiredIds = l.retiredIds)
    (hset : t.retiredIdSet = l.retiredIdSet) (hreaders : t.readers = l.readers)
    (hgeneration : t.generation = l.generation)
    (ht : t.trace = l.trace ∨ ∃ e, e.isQuiet = true ∧ t.trace = e :: l.trace) : Calm l t where
  next := hnext
  view n := by rw [view, view, hrequests]
  ended n q o hq ho := ⟨q, by rw [hrequests, hq], ho⟩
  pending := by rw [hpending]
  settling := hsettling
  retiredIds := hids
  retiredIdSet := hset
  readers := by rw [hreaders]
  generation := hgeneration
  trace := ht

theorem calm_refl (l : Link) : Calm l l := calm_of rfl rfl rfl rfl rfl rfl rfl rfl (.inl rfl)

theorem calm_markGenerationFailed (l : Link) (g : Nat) (error : ClientError) :
    Calm l (l.markGenerationFailed g error) := by
  unfold Link.markGenerationFailed
  split
  · exact calm_refl l
  · exact calm_of rfl rfl rfl rfl rfl rfl rfl rfl (.inr ⟨_, rfl, rfl⟩)

theorem calm_abortGeneration (l : Link) (g : Nat) (closed : Bool) :
    Calm l (l.abortGeneration g closed).2 := by
  unfold Link.abortGeneration
  split
  · exact calm_refl l
  · exact calm_of rfl rfl rfl rfl rfl rfl rfl rfl (.inr ⟨_, rfl, rfl⟩)

theorem calm_routeServerRequest (l : Link) (env : Settings) (k : Nat) (q : ServerRequest)
    (handled : Bool) : Calm l (l.routeServerRequest env k q handled) := by
  unfold Link.routeServerRequest
  split
  · exact calm_readerRaises l q.generation .protocol
  simp only
  split
  · exact calm_of rfl rfl rfl rfl rfl rfl rfl rfl (.inr ⟨.received k q, rfl, rfl⟩)
  split
  · exact calm_of rfl rfl rfl rfl rfl rfl rfl rfl (.inr ⟨.received k q, rfl, rfl⟩)
  · exact calm_of rfl rfl rfl rfl rfl rfl rfl rfl (.inr ⟨.received k q, rfl, rfl⟩)

theorem calm_invoke (l : Link) (k : Nat) (q : ServerRequest) : Calm l (l.invoke k q) := by
  unfold Link.invoke
  simp only
  split
  · exact calm_of rfl rfl rfl rfl rfl rfl rfl rfl (.inl rfl)
  · exact calm_of rfl rfl rfl rfl rfl rfl rfl rfl (.inl rfl)

theorem calm_takeToken (l : Link) (k : Nat) (q : ServerRequest) : Calm l (l.takeToken k q) := by
  unfold Link.takeToken
  split
  · exact calm_refl l
  · exact calm_of rfl rfl rfl rfl rfl rfl rfl rfl (.inl rfl)

theorem calm_discardServerRequest (l : Link) (g : Nat) (id : RequestId) (closed : Bool) :
    Calm l (l.discardServerRequest g id closed) := by
  unfold Link.discardServerRequest
  simp only
  split
  · exact calm_refl l
  · exact calm_of rfl rfl rfl rfl rfl rfl rfl rfl (.inr ⟨.discarded (g, id), rfl, rfl⟩)

def Ongoing (l : Link) : Payload → Prop
  | .request n => ∃ q, l.requests.get? n = some q ∧ ∀ o, q.stage ≠ .ended o
  | _ => True

theorem calm_writeFails {payload : Payload} (hp : l.Ongoing payload) (error : ClientError) :
    Calm l (l.writeFails payload error) := by
  cases payload with
  | request n =>
    obtain ⟨q, hq, hopen⟩ := hp
    exact calm_setStage hq hopen _
  | answer k => exact calm_of rfl rfl rfl rfl rfl rfl rfl rfl (.inl rfl)
  | notice => exact calm_refl l

theorem calm_startWrite {payload : Payload} (hp : l.Ongoing payload) (g : Nat) :
    Calm l (l.startWrite payload g) := by
  unfold Link.startWrite
  split
  · exact calm_writeFails hp _
  rename_i p _
  cases payload with
  | request n =>
    obtain ⟨q, hq, hopen⟩ := hp
    have hset := calm_setStage hq hopen .writing
    exact ⟨hset.next, hset.view, hset.ended, hset.pending, rfl, rfl, rfl, hset.readers, rfl,
      .inl rfl⟩
  | answer k => exact calm_of rfl rfl rfl rfl rfl rfl rfl rfl (.inl rfl)
  | notice => exact calm_of rfl rfl rfl rfl rfl rfl rfl rfl (.inl rfl)

theorem Requests.flush {t : Link} (h : l.Requests) {w : Writing} (hw : l.Ongoing w.payload)
    {g : Nat} {result : Pipe} (hs : l.flush w g result = some t) : t.Requests := by
  have hreleased : Requests { l with writer := none } :=
    h.calm (calm_of rfl rfl rfl rfl rfl rfl rfl rfl (.inl rfl))
  have hbroke : ∀ error, (l.writeBroke w g error).Requests := by
    intro error
    have hmarked := hreleased.calm (calm_markGenerationFailed _ g error)
    refine hmarked.calm (calm_writeFails ?_ error)
    cases hp : w.payload with
    | request n =>
      rw [hp] at hw
      obtain ⟨q, hq, hopen⟩ := hw
      refine ⟨q, ?_, hopen⟩
      unfold Link.markGenerationFailed
      split
      · exact hq
      · exact hq
    | answer k => trivial
    | notice => trivial
  cases result with
  | written =>
    rcases Option.ite_none_left_eq_some.mp hs with ⟨_, hs⟩
    cases hs
    obtain ⟨payload, p⟩ := w
    cases payload with
    | request n =>
      obtain ⟨q, hq, hopen⟩ := hw
      have hwaiting := h.calm (calm_setStage hq hopen .waiting)
      exact hwaiting.calm (calm_of rfl rfl rfl rfl rfl rfl rfl rfl (.inl rfl))
    | answer k =>
      exact h.calm (calm_of rfl rfl rfl rfl rfl rfl rfl rfl (.inr ⟨.answered k p, rfl, rfl⟩))
    | notice => exact hreleased
  | broken =>
    cases hs
    exact hbroke .unavailable
  | short =>
    rcases Option.ite_none_left_eq_some.mp hs with ⟨_, hs⟩
    cases hs
    exact hbroke .protocol

end

end Link

end CodexBridge.AppServer
