import CodexBridge.Runtime.Loads
import CodexBridge.Journal.Files

/-! # The checkpoint never goes back

As long as no plain save meets a pending operation for the state file, and every document of an
operation is within the limit of the reader, the file always holds a record that is not older
than any call that returned.
-/

namespace CodexBridge.Runtime

open Effect Journal

/-! ## The condition -/

def World.isUncontended {m : RecordModel} (w : World m) : Bool :=
  (pendingEnvelopes w.outbox.db).all fun e =>
    e.writes.all fun write => write.relativePath ≠ statePath

def hasRoom (m : RecordModel) (uuid : String) (record : m.Record) : Bool :=
  m.documentBytes (recordDocument m uuid record) ≤ maximumStateBytes

/-- A plain save finds no operation for the state file pending, and an operation leaves room for
its marker. -/
def World.isOrderly (hasOutbox : Bool) {m : RecordModel} (w : World m) : Step m → Bool
  | .save _ _ => w.isUncontended
  | .saveWithEvents state call =>
    if call.isJournaled && hasOutbox then
      (m.revalidate state).all fun record => hasRoom m call.uuid record
    else w.isUncontended
  | .journal _ => true

section

variable {m : RecordModel}

structure Presents (m : RecordModel) (document : Document) (record : m.Record) : Prop where
  body : document.body = m.dump record
  revision : document.revision = m.revision record
  positive : 1 ≤ document.revision
  identified : document.operationId ≠ ""
  room : m.documentBytes document ≤ maximumStateBytes

def Shows (m : RecordModel) (saved : Payload) : Option StateFile → m.Record → Prop
  | none, record => record = m.fresh
  | some .unmarked, record =>
    saved = m.dump record ∧ ∃ bytes, m.stateBytes saved = some bytes ∧ bytes ≤ maximumStateBytes
  | some (.marked document _), record => Presents m document record
  | some (.unreadable _), _ => False

/-- What holds of the state file, given the pending operations and what the calls have done. -/
structure Held (m : RecordModel) (w : World m) (waiting : List Envelope)
    (files : Dict String StateFile) : Prop where
  shown : ∃ record, Shows m w.saved (files.get? statePath) record ∧
    (record = m.fresh ∧ files.get? statePath = none ∨ record ∈ w.accepted) ∧
    (∀ other ∈ w.returned, m.revision other ≤ m.revision record) ∧
    ∀ last, w.last = some last → record = last
  waiting : ∀ e ∈ waiting, ∀ write ∈ e.writes, write.relativePath = statePath →
    w.last = none ∧ ∃ record ∈ w.accepted, Presents m write.document record ∧
      ∀ other ∈ w.returned, m.revision other ≤ m.revision record

structure Calls (m : RecordModel) (w : World m) : Prop where
  valid : ∀ record ∈ w.accepted, m.revalidate record = some record
  below : ∀ record ∈ w.accepted, ∃ top, w.top = some top ∧ m.revision record ≤ top
  returned : ∀ record ∈ w.returned, record ∈ w.accepted

structure Inv (env : Environment) (m : RecordModel) (w : World m) : Prop where
  calls : Calls m w
  outbox : AtMostOne (Attests env (Held m w)) w.outbox

variable {w : World m}

theorem Held.load {waiting : List Envelope} (hcalls : Calls m w)
    (h : Held m w waiting w.outbox.files) :
    ∃ record, w.load = .ok record ∧ (record = m.fresh ∨ record ∈ w.accepted) ∧
      (∀ other ∈ w.returned, m.revision other ≤ m.revision record) ∧
      ∀ last, w.last = some last → record = last := by
  obtain ⟨record, hshown, horigin, hreturned, hlast⟩ := h.shown
  refine ⟨record, ?_, horigin.imp And.left id, hreturned, hlast⟩
  unfold World.load World.file
  cases hfile : w.outbox.files.get? statePath with
  | none =>
    rw [hfile] at hshown
    have hfresh : record = m.fresh := hshown
    rw [hfresh]
    rfl
  | some file =>
    rw [hfile] at hshown
    have hvalid : m.revalidate record = some record := by
      cases horigin with
      | inl hnone =>
        rw [hfile] at hnone
        cases hnone.2
      | inr haccepted => exact hcalls.valid record haccepted
    cases file with
    | unreadable reason => exact hshown.elim
    | unmarked =>
      obtain ⟨hsaved, bytes, hbytes, hlimit⟩ := hshown
      simp only [Runtime.load, hbytes, Option.getD_some]
      rw [if_neg (by omega), hsaved]
      exact loadRaw_dump hvalid
    | marked document canonical =>
      have hpresents : Presents m document record := hshown
      have hlimit := hpresents.room
      simp only [Runtime.load]
      rw [if_neg (by omega)]
      exact loadRaw_document hvalid hpresents.body hpresents.identified hpresents.revision
        hpresents.positive

def WritesOnly (m : RecordModel) (w : World m) (e : Envelope) : Prop :=
  ∀ write ∈ e.writes, write.relativePath = statePath → w.last = none ∧
    ∃ record ∈ w.accepted, Presents m write.document record ∧
      ∀ other ∈ w.returned, m.revision other ≤ m.revision record

theorem held_rules (m : RecordModel) (w : World m) : FileRules (WritesOnly m w) (Held m w) where
  prepare e files h ha := by
    refine ⟨h.shown, ?_⟩
    intro e' he'
    rw [List.mem_singleton.mp he']
    exact ha
  replace e write files h hwrite := by
    refine ⟨?_, h.waiting⟩
    by_cases hpath : write.relativePath = statePath
    · obtain ⟨hlast, record, hrecord, hpresents, hreturned⟩ :=
        h.waiting e List.mem_cons_self write hwrite hpath
      refine ⟨record, ?_, Or.inr hrecord, hreturned, ?_⟩
      · rw [hpath, Dict.get?_set_self]
        exact hpresents
      · intro last hsome
        rw [hlast] at hsome
        cases hsome
    · have hsame : (files.set write.relativePath (.marked write.document true)).get? statePath =
          files.get? statePath := Dict.get?_set_of_ne _ _ fun heq => hpath heq.symm
      rw [hsame]
      exact h.shown
  finalize e files h := by
    refine ⟨h.shown, ?_⟩
    intro e' he'
    cases he'

theorem validatedPayload_spec {state record : m.Record}
    (h : validatedPayload m state = some record) : m.revalidate state = some record ∧
      ∃ bytes, m.stateBytes (m.dump record) = some bytes ∧ bytes ≤ maximumStateBytes := by
  unfold validatedPayload at h
  cases hvalid : m.revalidate state with
  | none =>
    rw [hvalid] at h
    cases h
  | some found =>
    rw [hvalid] at h
    dsimp only at h
    split at h
    · cases h
    rename_i bytes hbytes
    split at h
    · cases h
    rename_i hlimit
    cases h
    exact ⟨rfl, bytes, hbytes, by omega⟩

/-- What the calls before leave, and that the record of the next one is newer. -/
structure Ready (env : Environment) (m : RecordModel) (w : World m) (revision : Nat) : Prop where
  inv : Inv env m w
  top : w.top = some revision
  last : w.last = none
  newer : ∀ record ∈ w.accepted, m.revision record < revision

variable {env : Environment} {state : m.Record}

theorem Inv.start (h : Inv env m w)
    (hnewer : w.isNewer state = true) : Ready env m (w.calls state) (m.revision state) := by
  have hlarger : ∀ record ∈ w.accepted, m.revision record < m.revision state := by
    intro record hrecord
    obtain ⟨top, htop, hle⟩ := h.calls.below record hrecord
    rw [World.isNewer, htop] at hnewer
    have hlt : top < m.revision state := by simpa using hnewer
    omega
  refine ⟨⟨⟨h.calls.valid, ?_, h.calls.returned⟩, ?_⟩, rfl, rfl, hlarger⟩
  · intro record hrecord
    exact ⟨m.revision state, rfl, Nat.le_of_lt (hlarger record hrecord)⟩
  apply h.outbox.mono
  intro waiting s hs
  refine ⟨hs.1, ?_, ?_⟩
  · obtain ⟨record, hshown, horigin, hreturned, _⟩ := hs.2.shown
    refine ⟨record, hshown, horigin, hreturned, ?_⟩
    intro last hlast
    cases hlast
  · intro e he write hwrite hpath
    exact ⟨rfl, (hs.2.waiting e he write hwrite hpath).2⟩

variable {record : m.Record}

section

variable {revision : Nat} (h : Ready env m w revision)

include h

theorem Ready.accept (hvalid : m.revalidate record = some record)
    (hrevision : m.revision record = revision) : Inv env m (w.accepts record) where
  calls := by
    refine ⟨?_, ?_, ?_⟩
    · intro other hother
      cases List.mem_append.mp hother with
      | inl hold => exact h.inv.calls.valid other hold
      | inr hnew =>
        rw [List.mem_singleton.mp hnew]
        exact hvalid
    · intro other hother
      refine ⟨revision, h.top, ?_⟩
      cases List.mem_append.mp hother with
      | inl hold => exact Nat.le_of_lt (h.newer other hold)
      | inr hnew => rw [List.mem_singleton.mp hnew, hrevision]
    · intro other hother
      exact List.mem_append_left _ (h.inv.calls.returned other hother)
  outbox := by
    apply h.inv.outbox.mono
    intro waiting s hs
    refine ⟨hs.1, ?_, ?_⟩
    · obtain ⟨shown, hshown, horigin, hreturned, hlast⟩ := hs.2.shown
      exact ⟨shown, hshown, horigin.imp id (List.mem_append_left _), hreturned, hlast⟩
    · intro e he write hwrite hpath
      obtain ⟨hlast, found, hfound, hrest⟩ := hs.2.waiting e he write hwrite hpath
      exact ⟨hlast, found, List.mem_append_left _ hfound, hrest⟩

theorem Ready.returned_le (hrevision : m.revision record = revision) :
    ∀ other ∈ w.returned, m.revision other ≤ m.revision record := by
  intro other hother
  rw [hrevision]
  exact Nat.le_of_lt (h.newer other (h.inv.calls.returned other hother))

/-- A plain replacement while no operation for the file is pending. -/
theorem Ready.save (hfree : w.isUncontended = true)
    (hrevision : m.revision state = revision) (replacement : Replacement) :
    Inv env m (w.save state replacement) := by
  unfold World.save
  cases hpayload : validatedPayload m state with
  | none => exact h.inv
  | some record =>
    obtain ⟨hvalid, bytes, hbytes, hlimit⟩ := validatedPayload_spec hpayload
    have hsame : m.revision record = revision := (m.revision_revalidate hvalid).trans hrevision
    have haccepted := h.accept (m.revalidate_valid hvalid) hsame
    have hreturned := h.returned_le hsame
    have hcalls : ∀ returned last, (∀ other ∈ returned, other ∈ w.returned ∨ other = record) →
        Calls m { w.accepts record with returned := returned, last := last } := by
      intro returned last hothers
      refine ⟨haccepted.calls.valid, haccepted.calls.below, ?_⟩
      intro other hother
      cases hothers other hother with
      | inl hold => exact List.mem_append_left _ (h.inv.calls.returned other hold)
      | inr heq =>
        rw [heq]
        exact List.mem_append_right _ (List.mem_singleton_self record)
    have hreplaced : ∀ returned last,
        (∀ other ∈ returned, other ∈ w.returned ∨ other = record) →
        (∀ found, last = some found → record = found) →
        Inv env m { w.accepts record with
          outbox := { w.outbox with files := w.outbox.files.set statePath .unmarked }
          saved := m.dump record
          returned := returned
          last := last } := by
      intro returned last hothers hlast
      refine ⟨⟨(hcalls returned last hothers).valid, (hcalls returned last hothers).below,
        (hcalls returned last hothers).returned⟩, ?_⟩
      obtain ⟨waiting, hs, hlength⟩ := h.inv.outbox
      refine ⟨waiting, ⟨⟨hs.1.books, hs.1.quiet, hs.1.pending, hs.1.flag⟩, ?_, ?_⟩, hlength⟩
      · refine ⟨record, ?_, Or.inr ?_, ?_, hlast⟩
        · dsimp only
          rw [Dict.get?_set_self]
          exact ⟨rfl, bytes, hbytes, hlimit⟩
        · exact List.mem_append_right _ (List.mem_singleton_self record)
        · intro other hother
          cases hothers other hother with
          | inl hold => exact hreturned other hold
          | inr heq => rw [heq]
      · intro e he write hwrite hpath
        unfold World.isUncontended at hfree
        rw [hs.1.pending, List.all_eq_true] at hfree
        have hall := hfree e he
        rw [List.all_eq_true] at hall
        have hne := hall write hwrite
        rw [decide_eq_true_eq] at hne
        exact absurd hpath hne
    unfold World.ends World.atomicSave
    cases replacement with
    | failsBefore =>
      have hlast : (w.accepts record).last = none := h.last
      refine ⟨⟨haccepted.calls.valid, haccepted.calls.below, haccepted.calls.returned⟩, ?_⟩
      apply haccepted.outbox.mono
      intro waiting s hs
      refine ⟨hs.1, ?_, ?_⟩
      · obtain ⟨shown, hshown, horigin, hothers, _⟩ := hs.2.shown
        refine ⟨shown, hshown, horigin, hothers, ?_⟩
        intro found hfound
        cases hfound
      · intro e he write hwrite hpath
        exact ⟨rfl, (hs.2.waiting e he write hwrite hpath).2⟩
    | done =>
      apply hreplaced
      · intro other hother
        cases List.mem_append.mp hother with
        | inl hold => exact Or.inl hold
        | inr hnew => exact Or.inr (List.mem_singleton.mp hnew)
      · intro found hfound
        exact Option.some.inj hfound
    | failsAfter =>
      apply hreplaced
      · intro other hother
        exact Or.inl hother
      · intro found hfound
        cases hfound

end

theorem operationId_ne (revision : Nat) (uuid : String) : operationId revision uuid ≠ "" := by
  show "runtime-state:" ++ toString revision ++ ":" ++ uuid ≠ ""
  intro h
  have hlength := congrArg String.length h
  simp [String.length_append] at hlength

theorem presents_recordDocument (uuid : String)
    (hroom : hasRoom m uuid record = true) (hpositive : 1 ≤ m.revision record) :
    Presents m (recordDocument m uuid record) record where
  body := rfl
  revision := rfl
  positive := hpositive
  identified := operationId_ne _ _
  room := by simpa [hasRoom] using hroom

theorem Inv.forgets (h : Inv env m w)
    {returned : List m.Record} (hsub : ∀ other ∈ returned, other ∈ w.returned) :
    Inv env m { w with last := none, returned := returned } where
  calls :=
    ⟨h.calls.valid, h.calls.below, fun other hother => h.calls.returned other (hsub other hother)⟩
  outbox := by
    apply h.outbox.mono
    intro waiting s hs
    refine ⟨hs.1, ?_, ?_⟩
    · obtain ⟨record, hshown, horigin, hreturned, _⟩ := hs.2.shown
      refine ⟨record, hshown, horigin, fun other hother => hreturned other (hsub other hother), ?_⟩
      intro last hlast
      cases hlast
    · intro e he write hwrite hpath
      obtain ⟨_, record, hrecord, hpresents, hreturned⟩ := hs.2.waiting e he write hwrite hpath
      exact ⟨rfl, record, hrecord, hpresents, fun other hother =>
        hreturned other (hsub other hother)⟩

theorem Inv.withOutbox (h : Inv env m w) {outbox : Outbox}
    (hs : AtMostOne (Attests env (Held m w)) outbox) : Inv env m { w with outbox := outbox } where
  calls := ⟨h.calls.valid, h.calls.below, h.calls.returned⟩
  outbox := by
    apply hs.mono
    intro waiting s hfiles
    exact ⟨hfiles.1, hfiles.2.shown, hfiles.2.waiting⟩

theorem documentOf_record (uuid : String) (record : m.Record) :
    documentOf (operationId (m.revision record) uuid)
      ⟨statePath, m.revision record, m.dump record⟩ = recordDocument m uuid record :=
  congrArg (Document.mk _ _) (Json.sortedFields_of_sublist (List.Sublist.refl _))

theorem writesOnly_operation {w : World m}
    {call : EventSave} (hlast : w.last = none) (haccepted : record ∈ w.accepted)
    (hpresents : Presents m (recordDocument m call.uuid record) record)
    (hreturned : ∀ other ∈ w.returned, m.revision other ≤ m.revision record)
    {fingerprint : String} {e : Envelope}
    (h : checkOperation env (call.operation record) call.draws.now = .ok (fingerprint, e)) :
    WritesOnly m w e := by
  intro write hwrite hpath
  have hdocument := encodeWrites_first (checkOperation_encodeWrites h) hwrite hpath
  refine ⟨hlast, record, haccepted, ?_, hreturned⟩
  have hsame := documentOf_record call.uuid record
  rw [hdocument]
  exact hsame ▸ hpresents

theorem Inv.commitRecord (h : Inv env m w)
    {call : EventSave} (hlast : w.last = none) (haccepted : record ∈ w.accepted)
    (hpresents : Presents m (recordDocument m call.uuid record) record)
    (hreturned : ∀ other ∈ w.returned, m.revision other ≤ m.revision record)
    (hfresh : operationId (m.revision record) call.uuid ∉
      w.outbox.prepared.map Envelope.operationId) :
    Inv env m (w.commitRecord env record call) := by
  have hrules := held_rules m w
  have hstarted : AtMostOne (Attests env (Held m w)) { w.outbox with failure := call.failure } :=
    hrules.failure h.outbox call.failure
  unfold World.commitRecord
  dsimp only
  split
  · apply h.withOutbox
    have hreconciled : Triple _ (ensureReconciled env call.draws.isFull) _ _ :=
      (hrules.withstands env).ensureReconciled
    exact (hreconciled.returns (fun _ _ hs => .none hs)).state
      hstarted
  have hcommit : Triple _ (commitOperation env (call.operation record) call.draws) _ _ :=
    hrules.commitOperation (call.operation record) call.draws
    (fun fingerprint e he => writesOnly_operation hlast haccepted hpresents hreturned he) hfresh
  have hrun := hcommit { w.outbox with failure := call.failure } ⟨hstarted, rfl⟩
  split
  · rename_i records outbox hresult
    obtain ⟨hfiles, fingerprint, e, hchecked, hholds⟩ := hrun.1 records outbox hresult
    refine ⟨⟨h.calls.valid, h.calls.below, ?_⟩, ?_⟩
    · intro other hother
      cases List.mem_append.mp hother with
      | inl hold => exact h.calls.returned other hold
      | inr hnew =>
        rw [List.mem_singleton.mp hnew]
        exact haccepted
    refine ⟨[], ⟨hfiles.1, ?_, ?_⟩, Nat.zero_le 1⟩
    · have hwritten := encodeWrites_mem (checkOperation_encodeWrites hchecked)
        (List.mem_cons_self
          (a := (⟨statePath, m.revision record, m.dump record⟩ : OutboxWrite)))
      have hfile := hholds _ hwritten
      refine ⟨record, ?_, Or.inr haccepted, ?_, ?_⟩
      · unfold Holds at hfile
        dsimp only at hfile ⊢
        unfold World.ends
        dsimp only
        rw [hfile]
        have hsame := documentOf_record call.uuid record
        exact hsame ▸ hpresents
      · intro other hother
        cases List.mem_append.mp hother with
        | inl hold => exact hreturned other hold
        | inr hnew => rw [List.mem_singleton.mp hnew]
      · intro last hsome
        exact Option.some.inj hsome
    · intro e' he'
      cases he'
  · rename_i error outbox hresult
    exact h.withOutbox (hrun.2 error outbox hresult)

theorem returned_save {replacement : Replacement} :
    ∀ other ∈ w.returned, other ∈ (w.save state replacement).returned := by
  intro other hother
  unfold World.save
  split
  · exact hother
  unfold World.ends
  dsimp only
  split
  · apply List.mem_append_left
    unfold World.atomicSave
    split
    · exact hother
    · exact hother
  · unfold World.atomicSave
    split
    · exact hother
    · exact hother

theorem Ready.saveWithEvents {hasOutbox : Bool}
    {call : EventSave} (h : Ready env m w (m.revision state))
    (horderly : w.isOrderly hasOutbox (.saveWithEvents state call) = true)
    (hfresh : w.isFresh state call.uuid = true) :
    Inv env m (w.saveWithEvents env hasOutbox state call) := by
  unfold World.saveWithEvents
  cases hpayload : validatedPayload m state with
  | none => exact h.inv
  | some record =>
    obtain ⟨hvalid, _⟩ := validatedPayload_spec hpayload
    have hsame : m.revision record = m.revision state := m.revision_revalidate hvalid
    unfold World.isOrderly at horderly
    dsimp only at horderly ⊢
    split
    · rename_i hplain
      rw [Bool.not_eq_true'] at hplain
      rw [hplain, Bool.false_and, if_neg Bool.false_ne_true] at horderly
      exact h.save horderly hsame call.replacement
    rename_i hjournaled
    rw [Bool.not_eq_true', Bool.not_eq_false] at hjournaled
    split
    · rename_i hnone
      rw [Bool.not_eq_true'] at hnone
      rw [hjournaled, hnone, Bool.and_false, if_neg Bool.false_ne_true] at horderly
      exact (h.save horderly hsame call.replacement).forgets returned_save
    rename_i hsome
    rw [Bool.not_eq_true', Bool.not_eq_false] at hsome
    rw [hjournaled, hsome, Bool.and_true, if_pos rfl, hvalid] at horderly
    split
    · exact h.inv
    rename_i hpositive
    have hpresents := presents_recordDocument call.uuid horderly (by omega)
    apply (h.accept (m.revalidate_valid hvalid) hsame).commitRecord h.last
      (List.mem_append_right _ (List.mem_singleton_self record)) hpresents
      (h.returned_le hsame)
    rw [hsame]
    exact of_decide_eq_true hfresh

theorem Inv.next {hasOutbox : Bool} {w v : World m} {step : Step m}
    (h : Inv env m w) (horderly : w.isOrderly hasOutbox step = true)
    (hs : w.next env hasOutbox step = some v) : Inv env m v := by
  cases step with
  | save state replacement =>
    dsimp only [World.next] at hs
    rcases Runs.enabled hs with ⟨hnewer, hs⟩
    rw [← Option.some.inj hs]
    exact (h.start hnewer).save horderly rfl replacement
  | saveWithEvents state call =>
    dsimp only [World.next] at hs
    rcases Runs.enabled hs with ⟨hguard, hs⟩
    rw [Bool.and_eq_true] at hguard
    rw [← Option.some.inj hs]
    exact (h.start hguard.1).saveWithEvents horderly hguard.2
  | journal call =>
    dsimp only [World.next] at hs
    rcases Runs.enabled hs with ⟨helsewhere, hs⟩
    rw [← Option.some.inj hs]
    apply h.withOutbox
    apply (held_rules m w).perform _ _ h.outbox
    · cases call with
      | append request draws =>
        show isOutboxKey request.operationKey = false
        simpa [isElsewhere] using helsewhere
      | _ => trivial
    intro operation draws failure hcall fingerprint e hchecked write hwrite hpath
    obtain ⟨_, given, hgiven, heq⟩ :=
      mem_encodeWrites (checkOperation_encodeWrites hchecked) hwrite
    rw [hcall] at helsewhere
    unfold isElsewhere at helsewhere
    rw [List.all_eq_true] at helsewhere
    have hne := helsewhere given hgiven
    rw [decide_eq_true_eq] at hne
    rw [heq] at hpath
    exact absurd hpath hne

theorem inv_initial (env : Environment) (m : RecordModel) (files : Dict String StateFile) :
    Inv env m (World.initial m files) where
  calls := by
    refine ⟨?_, ?_, ?_⟩
    · intro record hrecord
      cases hrecord
    · intro record hrecord
      cases hrecord
    · intro record hrecord
      cases hrecord
  outbox := by
    have hnone : (files.erase statePath).get? statePath = none := by
      rw [Dict.get?_erase, if_pos rfl]
    refine ⟨[], ⟨clerk_initial env _, ?_, ?_⟩, Nat.zero_le 1⟩
    · refine ⟨m.fresh, ?_, Or.inl ⟨rfl, hnone⟩, ?_, ?_⟩
      · show Shows m [] ((files.erase statePath).get? statePath) m.fresh
        rw [hnone]
        rfl
      · intro other hother
        cases hother
      · intro last hlast
        cases hlast
    · intro e he
      cases he

structure NeverBack (m : RecordModel) (w : World m) : Prop where
  loads : pendingEnvelopes w.outbox.db = [] → ∃ record, w.load = .ok record ∧
    (record = m.fresh ∨ record ∈ w.accepted) ∧
    ∀ other ∈ w.returned, m.revision other ≤ m.revision record
  /-- The last call returned, and the file holds its record. -/
  last : ∀ record, w.last = some record → w.load = .ok record

theorem World.run_neverBack {env : Environment} {hasOutbox : Bool}
    {files : Dict String StateFile} {steps : List (Step m)} {w : World m}
    (horderly : Runs.Meets (World.next env hasOutbox)
      (fun w step => w.isOrderly hasOutbox step = true) (World.initial m files) steps)
    (h : Runs.exec (World.next env hasOutbox) (World.initial m files) steps = some w) :
    NeverBack m w := by
  have hinv : Inv env m w := by
    apply Runs.invariant_of_meets (I := Inv env m) _ (inv_initial env m files) horderly h
    intro s step t hs hc hstep
    exact hs.next hc hstep
  obtain ⟨waiting, hs, _⟩ := hinv.outbox
  obtain ⟨record, hload, horigin, hreturned, hlast⟩ := hs.2.load hinv.calls
  constructor
  · intro _
    exact ⟨record, hload, horigin, hreturned⟩
  · intro last hsome
    rw [hload, hlast last hsome]

end

structure IdleRecord where
  revision : Nat
  generation : Nat

def IdleRecord.dump (record : IdleRecord) : Payload :=
  [("interactions", .obj []), ("observed_app_server_generation", .int record.generation),
    ("request_idempotency", .obj []), ("revision", .int record.revision), ("runs", .obj []),
    ("schema_version", .int 1)]

theorem sortedFields_idleDump (record : IdleRecord) :
    Json.sortedFields record.dump = record.dump := by
  have hkeys : (["interactions", "observed_app_server_generation", "request_idempotency",
      "revision", "runs", "schema_version"] : List String).Pairwise (· ≤ ·) := by
    decide +kernel
  refine Json.sortedFields_eq_self ?_ ?_
  · exact (List.pairwise_map (f := Prod.fst) (R := (· ≤ ·)) (l := record.dump)).mp hkeys
  · simp [IdleRecord.dump, Json.sorted, Json.sortedFields]

def IdleRecord.validate (payload : Payload) : Option IdleRecord :=
  match Json.field? payload "revision", Json.field? payload "observed_app_server_generation" with
  | some (.int revision), some (.int generation) =>
    if 0 ≤ revision && 0 ≤ generation then some ⟨revision.toNat, generation.toNat⟩ else none
  | _, _ => none

/-- Records without runs, with legible stand-ins for the encodings. -/
def idleRecords : RecordModel where
  Record := IdleRecord
  fresh := ⟨0, 0⟩
  revision := IdleRecord.revision
  revalidate := some
  modelDump := IdleRecord.dump
  validate := IdleRecord.validate
  fingerprint := fun _ => "fingerprint"
  stateBytes := fun payload => some (2 + 32 * payload.length)
  documentBytes := fun document => 128 + 32 * document.body.length
  revision_revalidate := by
    intro r v h
    cases h
    rfl
  revalidate_valid := by
    intro r v h
    rfl
  dump_valid := by
    intro record _
    rw [sortedFields_idleDump]
    refine ⟨by simp [IdleRecord.dump], rfl, rfl, rfl, ⟨[], rfl, ?_⟩, [], rfl, ?_⟩
    · intro run hrun
      cases hrun
    · intro outcome houtcome
      cases houtcome
  validate_dump := by
    intro record _
    rw [sortedFields_idleDump]
    simp [IdleRecord.validate, IdleRecord.dump, Json.field?]

def sampleSave (uuid : String) (failure : Option (Nat × Failure)) : EventSave where
  events := [⟨"runtime", "codex.event", .obj [], none, none⟩]
  additionalWrites := []
  uuid := uuid
  draws := sampleCommitDraws
  failure := failure
  isRefused := false
  replacement := .done

/-- A save that dies before its events, a new process, plain saves, and one more with events. -/
def crashingSaves : List (Step idleRecords) :=
  [.saveWithEvents ⟨1, 1⟩ (sampleSave "a" (some (5, .crash))), .journal .restart,
    .journal (.reconcile (fun _ => false) none), .save ⟨2, 1⟩ .failsAfter, .save ⟨3, 2⟩ .done,
    .saveWithEvents ⟨4, 2⟩ (sampleSave "b" none)]

theorem World.run_neverBack_crashingSaves :
    (Runs.exec (World.next sampleEnvironment true) (World.initial idleRecords .empty)
      crashingSaves).isSome = true ∧
    ∀ w, Runs.exec (World.next sampleEnvironment true) (World.initial idleRecords .empty)
      crashingSaves = some w → NeverBack idleRecords w :=
  ⟨by decide +kernel, fun _ h => World.run_neverBack (by decide +kernel) h⟩

/-- A save that dies before its events, a plain save, and the reconciliation of the first. -/
def overtakenSaves : List (Step idleRecords) :=
  [.saveWithEvents ⟨1, 1⟩ (sampleSave "a" (some (5, .crash))), .save ⟨2, 1⟩ .done,
    .journal (.reconcile (fun _ => false) none)]

/-- The second save returned, and the state of the first loads. -/
theorem overtakenSaves_back : ∃ w,
    Runs.exec (World.next sampleEnvironment true) (World.initial idleRecords .empty)
      overtakenSaves = some w ∧ ¬NeverBack idleRecords w := by
  have hrun : (Runs.exec (World.next sampleEnvironment true) (World.initial idleRecords .empty)
      overtakenSaves).map (fun w => (decide (pendingEnvelopes w.outbox.db = []),
        w.load.toOption.map idleRecords.revision, w.returned.map idleRecords.revision)) =
      some (true, some 1, [2]) := by
    decide +kernel
  obtain ⟨w, hw, hend⟩ := Option.map_eq_some_iff.mp hrun
  refine ⟨w, hw, ?_⟩
  intro h
  simp only [Prod.mk.injEq, decide_eq_true_eq] at hend
  obtain ⟨hpending, hloaded, hreturned⟩ := hend
  obtain ⟨record, hload, _, hle⟩ := h.loads hpending
  rw [hload] at hloaded
  have hone : idleRecords.revision record = 1 := Option.some.inj hloaded
  obtain ⟨other, hother, htwo⟩ : ∃ other ∈ w.returned, idleRecords.revision other = 2 := by
    apply List.mem_map.mp
    rw [hreturned]
    exact List.mem_singleton_self 2
  have hback : idleRecords.revision other ≤ idleRecords.revision record := hle other hother
  omega

end CodexBridge.Runtime
