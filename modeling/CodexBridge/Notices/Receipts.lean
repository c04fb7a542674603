import CodexBridge.Automations.RunFates
import CodexBridge.Notices.Coordinator

/-! # A notice at most once

A receipt stands for every call. It stays in the file and in memory as long as the run can be
delivered again: while the store can list it or the refresh at work has fetched it. Only the
trimming of `_claim` can break this.
-/

namespace CodexBridge.Notices

open Automations

/-! ## Where the listed runs come from

Memory and file of the store hold no run but the ones a claim has drawn an identifier for:
every other call keeps, edits or drops runs.
-/

def Within (p : String → Prop) (s : State) : Prop :=
  ∀ k r, s.runs.get? k = some r → p r.automationRunId

def StoreWithin (p : String → Prop) (s : Store) : Prop :=
  Within p s.state ∧ ∀ f, s.saved = some f → Within p f

theorem next_within {p : String → Prop} {env : Environment} {s t : Store} {call : Call}
    (hs : StoreWithin p s) (hdrawn : ∀ id, drawnRun call = some id → p id)
    (h : Automations.next env s call = some t) : StoreWithin p t := by
  unfold Automations.next at h
  rcases Runs.enabled h with ⟨_, h⟩
  have ht : (perform env call s).2 = t := Option.some.inj h
  rw [← ht]
  apply StoreEach.perform (p := fun r => p r.automationRunId) hs
  · intro f r hf hr
    rw [hf.run_id]
    exact hr
  cases call with
  | claim automationId dueAt key expectedRevision capacityAvailable webSearch uuid now writes =>
    exact storesClaim_each env fun _ _ _ _ => hdrawn _ rfl
  | runNow automationId capacityAvailable webSearch keyUuid uuid now writes =>
    exact storesClaim_each env fun _ _ _ _ => hdrawn _ rfl
  | _ => trivial

/-! ## The runs that can come again -/

def Task.fetched : Task → List Run
  | .runs place => place.runs
  | .previewing delivery => delivery.run :: delivery.place.runs
  | .destinations delivery => delivery.run :: delivery.place.runs
  | .saving delivery _ _ => delivery.run :: delivery.place.runs
  | .calling delivery => delivery.run :: delivery.place.runs
  | _ => []

def Task.isSaving : Task → Bool
  | .saving _ _ _ => true
  | _ => false

namespace World

/-- The runs in memory, and those a restart would read from the file. -/
def storedRuns (w : World) : List String :=
  (w.store.state.runs.values ++
    match w.store.saved with
    | some file => file.runs.values
    | none => []).map Run.automationRunId

def atHand (w : World) : List String :=
  w.storedRuns ++ w.coordinator.task.fetched.map Run.automationRunId

end World

def isReceiptOf (runId key : String) : Bool := (runId ++ ":").toList.isPrefixOf key.toList

def droppedReceipts (limit : Nat) (receipts : Receipts) : List String :=
  (receipts.entries.take (receipts.size - limit)).map Prod.fst

/-- A step does not claim a receipt in the place of one whose run can come again. -/
def World.SparesReceipts (limit : Nat) (w : World) : Label → Prop
  | .advance _ => ∀ claim ∈ w.coordinator.claiming, ∀ key ∈ droppedReceipts limit
      (w.coordinator.receipts.set (receiptKey claim.1.run.automationRunId claim.2) .attempted),
        ∀ id ∈ w.atHand, isReceiptOf id key = false
  | _ => True

instance (limit : Nat) (w : World) : ∀ label, Decidable (w.SparesReceipts limit label)
  | .advance _ =>
    match h : w.coordinator.claiming with
    | none => isTrue fun claim hc => by rw [h] at hc; cases hc
    | some claim =>
      decidable_of_iff (∀ key ∈ droppedReceipts limit (w.coordinator.receipts.set
        (receiptKey claim.1.run.automationRunId claim.2) .attempted),
          ∀ id ∈ w.atHand, isReceiptOf id key = false) (by
        constructor
        · intro hall other ho
          rw [h] at ho
          cases ho
          exact hall
        · intro hall
          exact hall claim h)
  | .store _ | .start _ | .refresh | .respond | .respondPreview _ | .requestFails | .saved
  | .saveFails _ | .returns | .close | .restart _ => isTrue trivial

/-- Each service was called at most once for a run, and no receipt is forgotten while its run
can be listed. -/
structure World.NoticedOnce (w : World) : Prop where
  once : (w.calls.map fun call => (call.runId, call.destination)).Nodup
  kept : ∀ claim ∈ w.claimed, claim.1 ∈ w.storedRuns →
    w.file.contains (receiptKey claim.1 claim.2) = true ∧
      (w.coordinator.loaded = true →
        w.coordinator.receipts.contains (receiptKey claim.1 claim.2) = true)

theorem isReceiptOf_receiptKey (runId destination : String) :
    isReceiptOf runId (receiptKey runId destination) = true := by
  unfold isReceiptOf receiptKey
  rw [List.isPrefixOf_iff_prefix]
  simp [String.toList_append]

theorem contains_drop {d : Receipts} {key : String} {n : Nat} (h : d.contains key = true)
    (hkept : key ∉ (d.entries.take n).map Prod.fst) : (d.drop n).contains key = true := by
  obtain ⟨state, hstate⟩ := (d.contains_iff key).mp h
  have hmem : (key, state) ∈ d.entries := (d.get?_eq_some_iff key state).mp hstate
  rw [← List.take_append_drop n d.entries] at hmem
  have hdrop : (key, state) ∈ d.entries.drop n := by
    cases List.mem_append.mp hmem with
    | inl htake => exact absurd (List.mem_map_of_mem (f := Prod.fst) htake) hkept
    | inr hdrop => exact hdrop
  exact ((d.drop n).contains_iff key).mpr
    ⟨state, ((d.drop n).get?_eq_some_iff key state).mpr hdrop⟩

theorem contains_trimmed {limit : Nat} {d : Receipts} {key : String} (h : d.contains key = true)
    (hkept : key ∉ droppedReceipts limit d) : (trimmed limit d).contains key = true :=
  contains_drop h hkept

theorem droppedReceipts_set (limit : Nat) (d : Receipts) (key : String) (s t : ReceiptState) :
    droppedReceipts limit (d.set key s) = droppedReceipts limit (d.set key t) := by
  have hkeys : (d.set key s).entries.map Prod.fst = (d.set key t).entries.map Prod.fst := by
    unfold Dict.set
    split
    · simp [Function.comp_def, apply_ite]
    · simp
  have hsize : (d.set key s).size = (d.set key t).size := by
    have hlen := congrArg List.length hkeys
    simpa [Dict.size] using hlen
  unfold droppedReceipts
  rw [List.map_take, List.map_take, hkeys, hsize]

theorem not_dropped_self {limit : Nat} (hlimit : 0 < limit) (d : Receipts) {key : String}
    (hnew : d.get? key = none) (state : ReceiptState) :
    key ∉ droppedReceipts limit (d.set key state) := by
  have hentries := d.entries_set_of_none hnew state
  have hold : key ∉ d.entries.map Prod.fst := by
    intro hmem
    obtain ⟨v, hv⟩ := (d.mem_keys_iff key).mp hmem
    rw [hnew] at hv
    cases hv
  intro hmem
  unfold droppedReceipts Dict.size at hmem
  rw [hentries, List.length_append, List.length_singleton,
    List.take_append_of_le_length (by omega), List.map_take] at hmem
  exact hold (List.mem_of_mem_take hmem)

theorem Coordinator.claiming_spec {c : Coordinator} {delivery : Delivery} {destination : String}
    (h : c.claiming = some (delivery, destination)) :
    (delivery.run :: delivery.place.runs) = c.task.fetched ∧ c.task ≠ .idle ∧
      c.receipts.get? (receiptKey delivery.run.automationRunId destination) = none := by
  unfold Coordinator.claiming at h
  cases htask : c.task with
  | destinations current =>
    rw [htask] at h
    dsimp only at h
    cases hpending : current.pending with
    | nil => simp [hpending] at h
    | cons first rest =>
      rw [hpending] at h
      dsimp only at h
      split at h
      · cases h
      rename_i hfree
      cases h
      have hboth := Bool.or_eq_false_iff.mp (Bool.eq_false_iff.mpr hfree)
      refine ⟨rfl, by simp, ?_⟩
      exact Option.isNone_iff_eq_none.mp (by simpa [Dict.contains] using hboth.2)
  | _ => simp [htask] at h

theorem deliver_spec (receipts : Receipts) (definition : Automation) (later : List Automation)
    (run : Run) (runs : List Run) :
    (deliver receipts definition later run runs).isSaving = false ∧
      ∀ r ∈ (deliver receipts definition later run runs).fetched, r ∈ run :: runs := by
  unfold deliver
  dsimp only
  split
  · exact ⟨rfl, fun r hr => List.mem_cons_of_mem run hr⟩
  split
  · exact ⟨rfl, fun r hr => hr⟩
  · exact ⟨rfl, fun r hr => hr⟩

/-- A turn makes a claim or moves on within what was fetched. -/
theorem Coordinator.advance_cases {limit : Nat} {c d : Coordinator} {available : Bool}
    (h : c.advance limit available = some d) :
    (∃ delivery destination state, c.claiming = some (delivery, destination) ∧
      d = c.claim limit delivery destination state) ∨
    (∃ task, d = { c with task := task } ∧ c.task ≠ .idle ∧ task.isSaving = false ∧
      ∀ r ∈ task.fetched, r ∈ c.task.fetched) := by
  unfold Coordinator.advance at h
  cases hclaim : c.claiming with
  | some found =>
    obtain ⟨delivery, destination⟩ := found
    rw [hclaim] at h
    exact Or.inl ⟨delivery, destination, _, rfl, (Option.some.inj h).symm⟩
  | none =>
    right
    rw [hclaim] at h
    dsimp only at h
    split at h
    · rename_i htask
      exact ⟨_, (Option.some.inj h).symm, by simp [htask], rfl, by simp [Task.fetched]⟩
    · rename_i htask
      split at h
      · exact ⟨_, (Option.some.inj h).symm, by simp [htask], rfl, by simp [Task.fetched]⟩
      split at h
      · exact ⟨_, (Option.some.inj h).symm, by simp [htask], rfl, by simp [Task.fetched]⟩
      · exact ⟨_, (Option.some.inj h).symm, by simp [htask], rfl, by simp [Task.fetched]⟩
    · rename_i htask
      exact ⟨_, (Option.some.inj h).symm, by simp [htask], rfl, by simp [Task.fetched]⟩
    · rename_i definition later run rest htask
      split at h
      · exact ⟨_, (Option.some.inj h).symm, by simp [htask], rfl, by simp [Task.fetched]⟩
      have hspec := deliver_spec c.receipts definition later run rest
      refine ⟨_, (Option.some.inj h).symm, by simp [htask], hspec.1, ?_⟩
      intro r hr
      rw [htask]
      exact hspec.2 r hr
    · rename_i delivery htask
      split at h
      · refine ⟨_, (Option.some.inj h).symm, by simp [htask], rfl, ?_⟩
        intro r hr
        rw [htask]
        exact List.mem_cons_of_mem _ hr
      split at h
      · refine ⟨_, (Option.some.inj h).symm, by simp [htask], rfl, ?_⟩
        intro r hr
        rw [htask]
        exact List.mem_cons_of_mem _ hr
      · refine ⟨_, (Option.some.inj h).symm, by simp [htask], rfl, ?_⟩
        intro r hr
        rw [htask]
        exact hr
    · cases h

/-! ## The invariant -/

structure Inv (w : World) : Prop where
  drawn : ∀ id ∈ w.atHand, id ∈ w.drawn
  claimed_drawn : ∀ claim ∈ w.claimed, claim.1 ∈ w.drawn
  loaded : w.coordinator.task ≠ .idle → w.coordinator.loaded = true
  kept : ∀ claim ∈ w.claimed, claim.1 ∈ w.atHand →
    w.file.contains (receiptKey claim.1 claim.2) = true ∧
      (w.coordinator.loaded = true →
        w.coordinator.receipts.contains (receiptKey claim.1 claim.2) = true)
  saving : ∀ delivery destination state,
    w.coordinator.task = .saving delivery destination state →
      (∀ claim ∈ w.claimed, claim.1 ∈ w.atHand →
        receiptKey claim.1 claim.2 ≠ receiptKey delivery.run.automationRunId destination) ∧
        w.coordinator.receipts.contains (receiptKey delivery.run.automationRunId destination) = true
  called : ∀ call ∈ w.calls, (call.runId, call.destination) ∈ w.claimed
  once : (w.calls.map fun call => (call.runId, call.destination)).Nodup

theorem inv_initial : Inv World.initial := by
  constructor <;>
    simp [World.initial, World.atHand, World.storedRuns, Store.initial, State.empty,
      Coordinator.fresh, Task.fetched, Dict.values, Dict.empty]

theorem Inv.noticedOnce {w : World} (h : Inv w) : w.NoticedOnce where
  once := h.once
  kept := fun claim hc hstored => h.kept claim hc (List.mem_append_left _ hstored)

theorem mem_atHand {w : World} {id : String} :
    id ∈ w.atHand ↔ id ∈ w.storedRuns ∨ ∃ r ∈ w.coordinator.task.fetched,
      r.automationRunId = id := by
  simp [World.atHand]

theorem storeWithin_iff {p : String → Prop} {w : World} :
    StoreWithin p w.store ↔ ∀ id ∈ w.storedRuns, p id := by
  unfold StoreWithin Within World.storedRuns
  constructor
  · intro h id hid
    obtain ⟨r, hr, hrid⟩ := List.mem_map.mp hid
    rw [← hrid]
    cases List.mem_append.mp hr with
    | inl hmem =>
      obtain ⟨k, hk⟩ := (w.store.state.runs.mem_values_iff r).mp hmem
      exact h.1 k r hk
    | inr hfile =>
      cases hsaved : w.store.saved with
      | none => simp [hsaved] at hfile
      | some file =>
        rw [hsaved] at hfile
        obtain ⟨k, hk⟩ := (file.runs.mem_values_iff r).mp hfile
        exact h.2 file hsaved k r hk
  · intro h
    refine ⟨?_, ?_⟩
    · intro k r hk
      exact h _ (List.mem_map_of_mem (List.mem_append_left _ (Dict.mem_values_of_get? hk)))
    · intro file hsaved k r hk
      refine h _ (List.mem_map_of_mem (List.mem_append_right _ ?_))
      rw [hsaved]
      exact Dict.mem_values_of_get? hk

namespace Inv

variable {w : World}

theorem withTask (h : Inv w) {task : Task} (hloaded : w.coordinator.loaded = true)
    (hsaving : task.isSaving = false)
    (hfetched : ∀ r ∈ task.fetched, r.automationRunId ∈ w.atHand) : Inv (w.withTask task) := by
  have hhand : ∀ id ∈ (w.withTask task).atHand, id ∈ w.atHand := by
    intro id hid
    cases mem_atHand.mp hid with
    | inl hstored => exact List.mem_append_left _ hstored
    | inr hex =>
      obtain ⟨r, hr, hrid⟩ := hex
      rw [← hrid]
      exact hfetched r hr
  constructor
  · exact fun id hid => h.drawn id (hhand id hid)
  · exact h.claimed_drawn
  · exact fun _ => hloaded
  · exact fun claim hc hid => h.kept claim hc (hhand _ hid)
  · intro delivery destination state htask
    have heq : task = .saving delivery destination state := htask
    rw [heq] at hsaving
    cases hsaving
  · exact h.called
  · exact h.once

theorem idle (h : Inv w) (hbusy : w.coordinator.task ≠ .idle) : Inv (w.withTask .idle) :=
  h.withTask (h.loaded hbusy) rfl fun r hr => by cases hr

theorem moves (h : Inv w) (hbusy : w.coordinator.task ≠ .idle) {task : Task}
    (hsaving : task.isSaving = false)
    (hfetched : ∀ r ∈ task.fetched, r ∈ w.coordinator.task.fetched) : Inv (w.withTask task) := by
  apply h.withTask (h.loaded hbusy) hsaving
  intro r hr
  exact mem_atHand.mpr (Or.inr ⟨r, hfetched r hr, rfl⟩)

variable {v : World}

section

variable (h : Inv w)

include h

/-- Only the drawn identifier comes to hand, and no claim is of it. -/
theorem callStore {env : Environment} {call : Call}
    (hs : w.callStore env call = some v) : Inv v := by
  unfold World.callStore at hs
  dsimp only at hs
  rcases Option.ite_none_left_eq_some.mp hs with ⟨hfresh, hs⟩
  obtain ⟨s, hnext, hv⟩ := Option.map_eq_some_iff.mp hs
  have hnew : ∀ id, drawnRun call = some id → id ∉ w.drawn := by
    intro id hid hmem
    apply hfresh
    simp [hid, hmem]
  have hwithin : StoreWithin (fun id => id ∈ w.storedRuns ∨ drawnRun call = some id) s := by
    apply next_within _ (fun id hid => Or.inr hid) hnext
    exact storeWithin_iff.mpr fun id hid => Or.inl hid
  have hstored : ∀ id ∈ v.storedRuns, id ∈ w.storedRuns ∨ drawnRun call = some id := by
    rw [← hv]
    exact storeWithin_iff.mp hwithin
  have hhand : ∀ id ∈ v.atHand, id ∈ w.atHand ∨ drawnRun call = some id := by
    intro id hid
    cases mem_atHand.mp hid with
    | inl hmem =>
      cases hstored id hmem with
      | inl hold => exact Or.inl (List.mem_append_left _ hold)
      | inr hdrawn => exact Or.inr hdrawn
    | inr hex =>
      rw [← hv] at hex
      exact Or.inl (mem_atHand.mpr (Or.inr hex))
  have hdrawn : v.drawn = (drawnRun call).toList ++ w.drawn := by rw [← hv]
  have hclaimed : v.claimed = w.claimed := by rw [← hv]
  have hcoordinator : v.coordinator = w.coordinator := by rw [← hv]
  have hfile : v.file = w.file := by rw [← hv]
  have hcalls : v.calls = w.calls := by rw [← hv]
  constructor
  · intro id hid
    rw [hdrawn]
    cases hhand id hid with
    | inl hold => exact List.mem_append_right _ (h.drawn id hold)
    | inr hid => simp [hid]
  · intro claim hc
    rw [hclaimed] at hc
    rw [hdrawn]
    exact List.mem_append_right _ (h.claimed_drawn claim hc)
  · rw [hcoordinator]
    exact h.loaded
  · intro claim hc hid
    rw [hclaimed] at hc
    rw [hfile, hcoordinator]
    cases hhand _ hid with
    | inl hold => exact h.kept claim hc hold
    | inr hdrawn => exact absurd (h.claimed_drawn claim hc) (hnew _ hdrawn)
  · intro delivery destination state htask
    rw [hcoordinator] at htask ⊢
    rw [hclaimed]
    refine ⟨?_, (h.saving delivery destination state htask).2⟩
    intro claim hc hid
    cases hhand _ hid with
    | inl hold => exact (h.saving delivery destination state htask).1 claim hc hold
    | inr hdrawn => exact absurd (h.claimed_drawn claim hc) (hnew _ hdrawn)
  · rw [hcalls, hclaimed]
    exact h.called
  · rw [hcalls]
    exact h.once

/-- The receipts read are the saved ones. -/
theorem start {loads : Bool} (hs : w.start loads = some v) : Inv v := by
  unfold World.start at hs
  dsimp only at hs
  rcases Option.ite_none_left_eq_some.mp hs with ⟨hfree, hs⟩
  have hboth := Bool.or_eq_false_iff.mp (Bool.eq_false_iff.mpr hfree)
  have hidle : w.coordinator.task = .idle := by
    by_contra hbusy
    rw [h.loaded hbusy] at hboth
    cases hboth.2
  split at hs
  · have hv := Option.some.inj hs
    rw [← hv]
    constructor
    · exact h.drawn
    · exact h.claimed_drawn
    · exact fun _ => rfl
    · exact fun claim hc hid =>
        ⟨(h.kept claim hc hid).1, fun _ => (h.kept claim hc hid).1⟩
    · intro delivery destination state htask
      have heq : w.coordinator.task = .saving delivery destination state := htask
      rw [hidle] at heq
      cases heq
    · exact h.called
    · exact h.once
  · rw [← Option.some.inj hs]
    exact h

theorem claim {limit : Nat} (hlimit : 0 < limit) {available : Bool}
    {delivery : Delivery} {destination : String}
    (hclaim : w.coordinator.claiming = some (delivery, destination))
    (hspares : w.SparesReceipts limit (.advance available)) (state : ReceiptState) :
    Inv (w.withCoordinator (w.coordinator.claim limit delivery destination state)) := by
  obtain ⟨hfetched, hbusy, hnone⟩ := Coordinator.claiming_spec hclaim
  have hloaded := h.loaded hbusy
  have hhand :
      (w.withCoordinator (w.coordinator.claim limit delivery destination state)).atHand =
        w.atHand := by
    unfold World.atHand
    rw [← hfetched]
    rfl
  have hkeep : ∀ claim ∈ w.claimed, claim.1 ∈ w.atHand → receiptKey claim.1 claim.2 ∉
      droppedReceipts limit (w.coordinator.receipts.set
        (receiptKey delivery.run.automationRunId destination) state) := by
    intro claim hc hid hmem
    rw [droppedReceipts_set _ _ _ state .attempted] at hmem
    have hnot := hspares (delivery, destination) hclaim _ hmem _ hid
    rw [isReceiptOf_receiptKey] at hnot
    cases hnot
  -- the destination has no receipt, so the claim is of no run at hand that has one
  have hother : ∀ claim ∈ w.claimed, claim.1 ∈ w.atHand → receiptKey claim.1 claim.2 ≠
      receiptKey delivery.run.automationRunId destination := by
    intro claim hc hid heq
    obtain ⟨old, hold⟩ := (Dict.contains_iff _ _).mp ((h.kept claim hc hid).2 hloaded)
    rw [heq, hnone] at hold
    cases hold
  constructor
  · rw [hhand]
    exact h.drawn
  · exact h.claimed_drawn
  · exact fun _ => hloaded
  · intro claim hc hid
    rw [hhand] at hid
    refine ⟨(h.kept claim hc hid).1, fun _ => contains_trimmed ?_ (hkeep claim hc hid)⟩
    obtain ⟨old, hold⟩ := (Dict.contains_iff _ _).mp ((h.kept claim hc hid).2 hloaded)
    apply (Dict.contains_iff _ _).mpr
    exact ⟨old, by rw [Dict.get?_set_of_ne _ _ (hother claim hc hid)]; exact hold⟩
  · intro current target state' htask
    have heq : Task.saving delivery destination state = .saving current target state' := htask
    cases heq
    refine ⟨?_, contains_trimmed ?_ (not_dropped_self hlimit _ hnone state)⟩
    · intro claim hc hid
      rw [hhand] at hid
      exact hother claim hc hid
    · exact (Dict.contains_iff _ _).mpr ⟨state, Dict.get?_set_self _ _ _⟩
  · exact h.called
  · exact h.once

/-- The Bridge lists runs that its store has. -/
theorem respond {lower : String → String} (hs : w.respond lower = some v) : Inv v := by
  unfold World.respond at hs
  dsimp only at hs
  split at hs
  · rename_i htask
    have hbusy : w.coordinator.task ≠ .idle := by simp [htask]
    split at hs
    · rw [← Option.some.inj hs]
      exact h.idle hbusy
    · rw [← Option.some.inj hs]
      exact h.moves hbusy rfl fun r hr => by cases hr
  · rename_i definition later htask
    have hbusy : w.coordinator.task ≠ .idle := by simp [htask]
    split at hs
    · rw [← Option.some.inj hs]
      exact h.idle hbusy
    split at hs
    · rw [← Option.some.inj hs]
      exact h.moves hbusy rfl fun r hr => by cases hr
    rw [← Option.some.inj hs]
    apply h.withTask (h.loaded hbusy) rfl
    intro r hr
    have hlisted : r ∈ listRuns w.store.state definition.automationId 200 :=
      List.mem_reverse.mp hr
    have hvalue : r ∈ w.store.state.runs.values := by
      have hsorted := List.mem_of_mem_take hlisted
      rw [List.mem_insertionSort] at hsorted
      exact (List.mem_filter.mp hsorted).1
    exact List.mem_append_left _ (List.mem_map_of_mem (List.mem_append_left _ hvalue))
  · cases hs

theorem respondPreview {text : Option String} (hs : w.respondPreview text = some v) : Inv v := by
  unfold World.respondPreview at hs
  split at hs
  · rename_i delivery htask
    have hbusy : w.coordinator.task ≠ .idle := by simp [htask]
    have hfetched : w.coordinator.task.fetched = delivery.run :: delivery.place.runs := by
      rw [htask]
      rfl
    split at hs
    · rw [← Option.some.inj hs]
      apply h.moves hbusy rfl
      rw [hfetched]
      exact fun r hr => List.mem_cons_of_mem _ hr
    · rw [← Option.some.inj hs]
      apply h.moves hbusy rfl
      rw [hfetched]
      exact fun r hr => hr
  · cases hs

theorem requestFails (hs : w.requestFails = some v) : Inv v := by
  unfold World.requestFails at hs
  split at hs
  · rename_i htask
    rw [← Option.some.inj hs]
    exact h.idle (by simp [htask])
  · rename_i htask
    rw [← Option.some.inj hs]
    exact h.idle (by simp [htask])
  · rename_i htask
    rw [← Option.some.inj hs]
    exact h.idle (by simp [htask])
  · cases hs

theorem record {delivery : Delivery} {destination : String} {state : ReceiptState}
    (htask : w.coordinator.task = .saving delivery destination state) {task : Task}
    (hsaving : task.isSaving = false)
    (hfetched : ∀ r ∈ task.fetched, r ∈ delivery.run :: delivery.place.runs) :
    Inv ({ w with
      file := w.coordinator.receipts
      claimed := (delivery.run.automationRunId, destination) :: w.claimed } |>.withTask task) := by
  have hloaded : w.coordinator.loaded = true := h.loaded (by simp [htask])
  have hcurrent : w.coordinator.task.fetched = delivery.run :: delivery.place.runs := by
    rw [htask]
    rfl
  have hrun : delivery.run.automationRunId ∈ w.atHand := by
    apply mem_atHand.mpr
    exact Or.inr ⟨delivery.run, by rw [hcurrent]; exact List.mem_cons_self, rfl⟩
  constructor
  · intro id hid
    cases mem_atHand.mp hid with
    | inl hstored => exact h.drawn id (List.mem_append_left _ hstored)
    | inr hex =>
      obtain ⟨r, hr, hrid⟩ := hex
      exact h.drawn id (mem_atHand.mpr (Or.inr ⟨r, hcurrent ▸ hfetched r hr, hrid⟩))
  · intro claim hc
    cases List.mem_cons.mp hc with
    | inl hnew =>
      rw [hnew]
      exact h.drawn _ hrun
    | inr hold => exact h.claimed_drawn claim hold
  · exact fun _ => hloaded
  · intro claim hc hid
    have hreceipt : w.coordinator.receipts.contains (receiptKey claim.1 claim.2) = true := by
      cases List.mem_cons.mp hc with
      | inl hnew =>
        rw [hnew]
        exact (h.saving delivery destination state htask).2
      | inr hold =>
        apply (h.kept claim hold _).2 hloaded
        cases mem_atHand.mp hid with
        | inl hstored => exact List.mem_append_left _ hstored
        | inr hex =>
          obtain ⟨r, hr, hrid⟩ := hex
          exact mem_atHand.mpr (Or.inr ⟨r, hcurrent ▸ hfetched r hr, hrid⟩)
    exact ⟨hreceipt, fun _ => hreceipt⟩
  · intro current target state' hother
    have heq : task = .saving current target state' := hother
    rw [heq] at hsaving
    cases hsaving
  · exact fun call hc => List.mem_cons_of_mem _ (h.called call hc)
  · exact h.once

/-- A service is called for a receipt that was just saved for the first time. -/
theorem saved (hs : w.saved = some v) : Inv v := by
  unfold World.saved at hs
  split at hs
  · rename_i delivery destination state htask
    dsimp only at hs
    split at hs
    · rw [← Option.some.inj hs]
      exact h.record htask rfl fun r hr => hr
    split at hs
    · rw [← Option.some.inj hs]
      exact h.record htask rfl fun r hr => List.mem_cons_of_mem _ hr
    have hv := Option.some.inj hs
    have hrecorded : Inv ({ w with
        file := w.coordinator.receipts
        claimed := (delivery.run.automationRunId, destination) :: w.claimed } |>.withTask
          (.calling delivery)) :=
      h.record htask rfl fun r hr => hr
    have hname : ∀ name message,
        ((notice delivery.run name message destination).runId,
          (notice delivery.run name message destination).destination) =
            (delivery.run.automationRunId, destination) := by
      intro name message
      unfold notice
      dsimp only
      split <;> rfl
    rw [← hv]
    constructor
    · exact hrecorded.drawn
    · exact hrecorded.claimed_drawn
    · exact hrecorded.loaded
    · exact hrecorded.kept
    · exact hrecorded.saving
    · intro call hc
      cases List.mem_cons.mp hc with
      | inl hnew =>
        rw [hnew, hname]
        exact List.mem_cons_self
      | inr hold => exact hrecorded.called call hold
    · show (List.map _ (_ :: w.calls)).Nodup
      rw [List.map_cons, List.nodup_cons, hname]
      refine ⟨?_, h.once⟩
      intro hmem
      obtain ⟨call, hc, hcall⟩ := List.mem_map.mp hmem
      have hclaimed := h.called call hc
      rw [hcall] at hclaimed
      have hrun : delivery.run.automationRunId ∈ w.atHand :=
        mem_atHand.mpr (Or.inr ⟨delivery.run, by rw [htask]; exact List.mem_cons_self, rfl⟩)
      exact (h.saving delivery destination _ htask).1 _ hclaimed hrun rfl
  · cases hs

/-- The receipt taken back is of no claim that has returned. -/
theorem saveFails {landed : Bool} (hs : w.saveFails landed = some v) : Inv v := by
  unfold World.saveFails at hs
  split at hs
  · rename_i delivery destination state htask
    have hloaded : w.coordinator.loaded = true := h.loaded (by simp [htask])
    have hv := Option.some.inj hs
    have hhand : ∀ id ∈ v.atHand, id ∈ w.atHand := by
      intro id hid
      rw [← hv] at hid
      cases mem_atHand.mp hid with
      | inl hstored => exact List.mem_append_left _ hstored
      | inr hex =>
        obtain ⟨r, hr, -⟩ := hex
        cases hr
    rw [← hv] at hhand ⊢
    constructor
    · exact fun id hid => h.drawn id (hhand id hid)
    · exact h.claimed_drawn
    · exact fun _ => hloaded
    · intro claim hc hid
      have hkept := h.kept claim hc (hhand _ hid)
      refine ⟨?_, fun _ => ?_⟩
      · dsimp only
        split
        · exact hkept.2 hloaded
        · exact hkept.1
      · obtain ⟨old, hold⟩ := (Dict.contains_iff _ _).mp (hkept.2 hloaded)
        have hne := (h.saving delivery destination state htask).1 claim hc (hhand _ hid)
        apply (Dict.contains_iff _ _).mpr
        exact ⟨old, by rw [Dict.get?_erase, if_neg hne]; exact hold⟩
    · intro current target state' hother
      cases hother
    · exact h.called
    · exact h.once
  · cases hs

/-- A new process reads what the old one had saved. -/
theorem restart (landed : Bool) :
    Inv { w with
      file := if landed then w.underWay else w.file
      coordinator := .fresh } := by
  have hhand : ∀ id ∈ World.atHand { w with
      file := if landed then w.underWay else w.file
      coordinator := .fresh }, id ∈ w.atHand := by
    intro id hid
    cases mem_atHand.mp hid with
    | inl hstored => exact List.mem_append_left _ hstored
    | inr hex =>
      obtain ⟨r, hr, -⟩ := hex
      cases hr
  constructor
  · exact fun id hid => h.drawn id (hhand id hid)
  · exact h.claimed_drawn
  · intro hbusy
    exact absurd rfl hbusy
  · intro claim hc hid
    have hkept := h.kept claim hc (hhand _ hid)
    refine ⟨?_, fun hloaded => by cases hloaded⟩
    dsimp only
    split
    · unfold World.underWay
      split
      · rename_i htask
        exact hkept.2 (h.loaded (by simp [htask]))
      · exact hkept.1
    · exact hkept.1
  · intro delivery destination state htask
    cases htask
  · exact h.called
  · exact h.once

theorem close : Inv (w.withCoordinator { w.coordinator with closed := true }) :=
  ⟨h.drawn, h.claimed_drawn, h.loaded, h.kept, h.saving, h.called, h.once⟩

theorem next {env : Environment} {lower : String → String} {limit : Nat}
    (hlimit : 0 < limit) {label : Label} (hspares : w.SparesReceipts limit label)
    (hs : w.next env lower limit label = some v) : Inv v := by
  cases label with
  | store call => exact h.callStore hs
  | start loads => exact h.start hs
  | refresh =>
    dsimp only [World.next] at hs
    split at hs
    · rename_i hloaded _
      rw [← Option.some.inj hs]
      exact h.withTask hloaded rfl fun r hr => by cases hr
    · cases hs
  | respond => exact h.respond hs
  | respondPreview text => exact h.respondPreview hs
  | requestFails => exact h.requestFails hs
  | advance available =>
    obtain ⟨c, hc, hv⟩ := Option.map_eq_some_iff.mp hs
    rw [← hv]
    cases Coordinator.advance_cases hc with
    | inl hclaim =>
      obtain ⟨delivery, destination, state, hclaim, hnew⟩ := hclaim
      rw [hnew]
      exact h.claim hlimit hclaim hspares state
    | inr hmoves =>
      obtain ⟨task, hnew, hbusy, hsaving, hfetched⟩ := hmoves
      rw [hnew]
      exact h.moves hbusy hsaving hfetched
  | saved => exact h.saved hs
  | saveFails landed => exact h.saveFails hs
  | returns =>
    dsimp only [World.next] at hs
    split at hs
    · rename_i delivery htask
      rw [← Option.some.inj hs]
      apply h.moves (by simp [htask]) rfl
      rw [htask]
      exact fun r hr => hr
    · cases hs
  | close =>
    rw [← Option.some.inj hs]
    exact h.close
  | restart landed =>
    rw [← Option.some.inj hs]
    exact h.restart landed

end

end Inv

/-- Whatever the store, the saves and the restarts do: if no claim drops the receipt of a run
that can come again, each service is called at most once for a run. -/
theorem World.run_noticedOnce (env : Environment) (lower : String → String)
    (labels : List Label) (w : World)
    (hspares : Runs.Meets (World.next env lower maxReceipts) (World.SparesReceipts maxReceipts)
      World.initial labels)
    (h : Runs.exec (World.next env lower maxReceipts) World.initial labels = some w) :
    w.NoticedOnce := by
  have hstep : ∀ s a t, Inv s → s.SparesReceipts maxReceipts a →
      World.next env lower maxReceipts s a = some t → Inv t := by
    intro s a t hs ha ht
    exact hs.next (by decide) ha ht
  exact (Runs.invariant_of_meets hstep inv_initial hspares h).noticedOnce

/-- A skipped run is sent, the process restarts in the middle of the next refresh, and the run
is found sent. -/
def sentAndRestarted : List Label :=
  [.store (.create (noticePayload "Backup") "a" 0 true), .store (.pause "aut_a" 1 0 true),
    .store (.runNow "aut_a" true .null "k" "00000000000000000000000000000000" 0 true),
    .start true, .refresh, .respond, .advance true, .respond, .advance true, .advance true, .saved,
    .returns, .advance true, .advance true, .advance true, .refresh, .respond, .restart false,
    .start true, .refresh, .respond, .advance true, .respond, .advance true, .advance true]

theorem World.run_noticedOnce_sentAndRestarted :
    (Runs.exec (World.next sampleEnvironment (fun name => name) maxReceipts) World.initial
      sentAndRestarted).isSome = true ∧
    ∀ w, Runs.exec (World.next sampleEnvironment (fun name => name) maxReceipts) World.initial
      sentAndRestarted = some w → w.NoticedOnce :=
  ⟨by decide +kernel, fun w h => World.run_noticedOnce sampleEnvironment (fun name => name) _ w
    (by decide +kernel) h⟩

end CodexBridge.Notices
