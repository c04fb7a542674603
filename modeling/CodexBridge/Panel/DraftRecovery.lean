import CodexBridge.Library.Dict
import CodexBridge.Library.Runs
import Mathlib.Data.List.Sort
import Mathlib.Data.Rat.Lemmas
import Mathlib.Algebra.Order.Ring.Rat

/-! # Draft recovery

Several tabs keep the unsent text of one user in a browser database. A write takes its
revision when it is called, and its transaction runs later, in any order with the others.
-/

namespace CodexBridge.Panel

abbrev Reading := { t : ℚ // 0 ≤ t }

structure DraftRevision where
  atTime : ℚ
  writer : String
  sequence : Nat

def isWriterChar (c : Char) : Bool :=
  ('a' ≤ c && c ≤ 'z') || ('A' ≤ c && c ≤ 'Z') || ('0' ≤ c && c ≤ '9') || c = '_' || c = '-'

def isWriterId (id : String) : Bool :=
  id.length ≠ 0 && id.length ≤ 64 && id.toList.all isWriterChar

def isKeyChar (c : Char) : Bool := isWriterChar c || c = '.' || c = ':'

def isChatId (id : String) : Bool :=
  id.length ≠ 0 && id.length ≤ 128 && id.toList.all isKeyChar

def isOwnerKey (key : String) : Bool :=
  key.length ≠ 0 && key.length ≤ 256 && key.toList.all isKeyChar

@[irreducible] def maxSafeInteger : Nat := 9007199254740991

/-- What all tabs of a user share, and what the language leaves open: the collation of the
locale and how a difference of two readings is rounded. -/
structure RecoverySettings where
  ownerKey : String
  isOwnerKey_ownerKey : isOwnerKey ownerKey = true
  maxDraftChars : Nat
  maxRecords : Nat
  maxRecords_pos : 0 < maxRecords
  retentionMs : ℚ
  minus : ℚ → ℚ → ℚ
  localeCompare : String → String → Ordering
  /-- `localeCompare` is a consistent comparator. -/
  consistent : Std.TransCmp localeCompare

/-- `text.length`, in UTF-16 units. -/
def utf16Length (text : String) : Nat :=
  (text.toList.map fun c => if c.toNat < 0x10000 then 1 else 2).sum

/-! ## Revisions -/

def validDraftRevision (r : DraftRevision) : Bool :=
  0 ≤ r.atTime && isWriterId r.writer && r.sequence ≤ maxSafeInteger

section

variable (s : RecoverySettings)

/-- `compareDraftRevision` of two revisions. -/
def compareRevisions (left right : DraftRevision) : Ordering :=
  if left.atTime ≠ right.atTime then if left.atTime < right.atTime then .lt else .gt
  else
    match s.localeCompare left.writer right.writer with
    | .eq =>
      if left.sequence = right.sequence then .eq
      else if left.sequence < right.sequence then .lt else .gt
    | order => order

/-- `compareDraftRevision`; nothing is before every revision. -/
def compareDraftRevision : Option DraftRevision → Option DraftRevision → Ordering
  | none, none => .eq
  | none, some _ => .lt
  | some _, none => .gt
  | some left, some right => compareRevisions s left right

def maxRevision (left right : Option DraftRevision) : Option DraftRevision :=
  if (compareDraftRevision s left right).isGE then left else right

end

structure DraftRecord where
  version : Nat
  ownerKey : String
  chatId : String
  state : String
  text : String
  savedAt : ℚ
  revision : DraftRevision

structure OwnerRecord where
  version : Nat
  ownerKey : String
  clearRevision : Option DraftRevision
  floorRevision : Option DraftRevision
  chatRevisions : Dict String DraftRevision

structure Records where
  drafts : Dict String DraftRecord
  owner : OwnerRecord

/-- What the two stores hold under the key of the owner. -/
structure Database where
  drafts : Dict String DraftRecord
  owner : Option OwnerRecord

def storageVersion : Nat := 1

def OwnerRecord.blank (ownerKey : String) : OwnerRecord :=
  ⟨storageVersion, ownerKey, none, none, .empty⟩

def validateDraftRecord (s : RecoverySettings) (value : DraftRecord) : Option DraftRecord :=
  if value.state = "draft" ∧ value.version = storageVersion ∧ value.ownerKey = s.ownerKey ∧
      isOwnerKey value.ownerKey = true ∧ isChatId value.chatId = true ∧ 0 ≤ value.savedAt ∧
      validDraftRevision value.revision = true ∧ utf16Length value.text ≤ s.maxDraftChars then
    some value
  else none

def validateDraftOwner (s : RecoverySettings) : Option OwnerRecord → Option OwnerRecord
  | none => some (.blank s.ownerKey)
  | some value =>
    if value.version = storageVersion ∧ value.ownerKey = s.ownerKey ∧
        value.clearRevision.all validDraftRevision = true ∧
        value.floorRevision.all validDraftRevision = true ∧
        value.chatRevisions.size ≤ s.maxRecords ∧
        (value.chatRevisions.entries.all fun e => isChatId e.1 && validDraftRevision e.2) =
          true then
      some value
    else none

def draftRecord (s : RecoverySettings) (chatId text : String) (revision : DraftRevision) :
    DraftRecord :=
  ⟨storageVersion, s.ownerKey, chatId, "draft", text, revision.atTime, revision⟩

def Records.size (c : Records) : Nat := c.drafts.size + c.owner.chatRevisions.size

section

variable (s : RecoverySettings)

/-- `drafts.delete(chatId)`, with the floor raised to the revision. -/
def Records.forgetDraft (c : Records) (chatId : String) (record : DraftRecord) : Records :=
  { drafts := c.drafts.erase chatId
    owner := { c.owner with
      floorRevision := maxRevision s c.owner.floorRevision (some record.revision) } }

def Records.forgetRevision (c : Records) (chatId : String) (revision : DraftRevision) : Records :=
  { c with
    owner := { c.owner with
      chatRevisions := c.owner.chatRevisions.erase chatId
      floorRevision := maxRevision s c.owner.floorRevision (some revision) } }

/-- `now - at > this.retentionMs`. -/
def isExpired (now : Reading) (atTime : ℚ) : Bool := s.minus now.val atTime > s.retentionMs

def pruneDrafts (now : Reading) : List (String × DraftRecord) → Records → Records
  | [], c => c
  | (chatId, record) :: rest, c =>
    if isExpired s now record.savedAt then
      pruneDrafts now rest (c.forgetDraft s chatId record)
    else pruneDrafts now rest c

def pruneRevisions (now : Reading) : List (String × DraftRevision) → Records → Records
  | [], c => c
  | (chatId, revision) :: rest, c =>
    if isExpired s now revision.atTime then
      pruneRevisions now rest (c.forgetRevision s chatId revision)
    else pruneRevisions now rest c

/-- The records `_pruneExpired` leaves. -/
def pruneExpired (c : Records) (now : Reading) : Records :=
  let pruned := pruneDrafts s now c.drafts.entries c
  pruneRevisions s now pruned.owner.chatRevisions.entries pruned

/-- What `_pruneExpired` returns. -/
def hasExpired (c : Records) (now : Reading) : Bool :=
  (c.drafts.entries.any fun e => isExpired s now e.2.savedAt) ||
    c.owner.chatRevisions.entries.any fun e => isExpired s now e.2.atTime

/-- The order of `entries` in `_enforceRecordLimit`. -/
def earlierDraft (left right : String × DraftRecord) : Prop :=
  left.2.savedAt < right.2.savedAt ∨ left.2.savedAt = right.2.savedAt ∧
    (compareRevisions s left.2.revision right.2.revision).isLE = true

/-- The order of `revisions` in `_enforceRecordLimit`. -/
def earlierRevision (left right : String × DraftRevision) : Prop :=
  left.2.atTime < right.2.atTime ∨ left.2.atTime = right.2.atTime ∧
    (compareRevisions s left.2 right.2).isLE = true

instance : DecidableRel (earlierDraft s) := fun _ _ => inferInstanceAs (Decidable (_ ∨ _))

instance : DecidableRel (earlierRevision s) := fun _ _ => inferInstanceAs (Decidable (_ ∨ _))

/-- The loop of `_enforceRecordLimit`, at most `n` times. -/
def evict : Nat → List (String × DraftRecord) → List (String × DraftRevision) → Records → Records
  | 0, _, _, c => c
  | n + 1, entries, revisions, c =>
    if c.size > s.maxRecords then
      match entries, revisions with
      | [], [] => c
      | [], (chatId, revision) :: later =>
        evict n [] later (c.forgetRevision s chatId revision)
      | (chatId, record) :: later, [] => evict n later [] (c.forgetDraft s chatId record)
      | (chatId, record) :: later, (chatId', revision) :: later' =>
        if revision.atTime ≤ record.savedAt then
          evict n ((chatId, record) :: later) later' (c.forgetRevision s chatId' revision)
        else evict n later ((chatId', revision) :: later') (c.forgetDraft s chatId record)
    else c

def enforceRecordLimit (c : Records) : Records :=
  evict s c.size (c.drafts.entries.insertionSort (earlierDraft s))
    (c.owner.chatRevisions.entries.insertionSort (earlierRevision s)) c

end

inductive Answer where
  | restored (draft : Option String)
  | saved (revision : DraftRevision)
  | removed (took : Bool)
  | cleared
  | failed (reason : String)

/-- What an update leaves, and whether it is stored. -/
structure Updated where
  answer : Answer
  changed : Bool
  records : Records

section

variable (s : RecoverySettings) (now : Reading) (c : Records)

def restoreDraft (chatId : String) : Updated :=
  let pruned := pruneExpired s c now
  ⟨.restored ((pruned.drafts.get? chatId).bind fun record =>
      if record.state = "draft" then some record.text else none), hasExpired s c now, pruned⟩

def Records.priorRevision (c : Records) (chatId : String) : Option DraftRevision :=
  maxRevision s ((c.drafts.get? chatId).map DraftRecord.revision)
    (c.owner.chatRevisions.get? chatId)

def Records.isStale (c : Records) (revision : DraftRevision) : Bool :=
  (compareDraftRevision s (some revision) c.owner.clearRevision).isLE ||
    (compareDraftRevision s (some revision) c.owner.floorRevision).isLE

def saveDraft (chatId text : String) (revision : DraftRevision) : Updated :=
  let pruned := pruneExpired s c now
  if isExpired s now revision.atTime || pruned.isStale s revision then
    ⟨.failed "stale_write", hasExpired s c now, pruned⟩
  else if (compareDraftRevision s (some revision) (pruned.priorRevision s chatId)).isLE then
    ⟨.failed "stale_write", hasExpired s c now, pruned⟩
  else
    let owner := { pruned.owner with chatRevisions := pruned.owner.chatRevisions.erase chatId }
    ⟨.saved revision, true, enforceRecordLimit s
      ⟨pruned.drafts.set chatId (draftRecord s chatId text revision), owner⟩⟩

def isUnexpected (current : Option DraftRecord) (expectedText : Option String)
    (expectedRevision : Option DraftRevision) : Bool :=
  (expectedRevision.any fun expected => !validDraftRevision expected ||
      current.all fun record => compareRevisions s record.revision expected ≠ .eq) ||
    expectedText.any fun expected => current.any fun record => record.text ≠ expected

def removeDraft (chatId : String) (expectedText : Option String)
    (expectedRevision : Option DraftRevision) (revision : DraftRevision) : Updated :=
  let pruned := pruneExpired s c now
  if pruned.isStale s revision then ⟨.failed "stale_write", hasExpired s c now, pruned⟩
  else if isUnexpected s (pruned.drafts.get? chatId) expectedText expectedRevision then
    ⟨.removed false, hasExpired s c now, pruned⟩
  else if (compareDraftRevision s (some revision) (pruned.priorRevision s chatId)).isLE then
    ⟨.failed "stale_write", hasExpired s c now, pruned⟩
  else
    let owner := { pruned.owner with
      chatRevisions := pruned.owner.chatRevisions.set chatId revision }
    ⟨.removed true, true, enforceRecordLimit s ⟨pruned.drafts.erase chatId, owner⟩⟩

def clearAll (revision : DraftRevision) : Updated :=
  let owner := { c.owner with
    chatRevisions := .empty
    clearRevision := some revision
    floorRevision := maxRevision s c.owner.floorRevision (some revision) }
  ⟨.cleared, true, ⟨.empty, owner⟩⟩

end

/-- What `_ownerTransaction` hands to an update, unless the stored values are corrupt. -/
def admitted (s : RecoverySettings) (db : Database) (repairCorrupt : Bool) : Option Records :=
  let owner := validateDraftOwner s db.owner
  let valid := db.drafts.filter fun _ record => (validateDraftRecord s record).isSome
  if !repairCorrupt && (db.drafts.size > s.maxRecords ||
      (owner.any fun o => db.drafts.size + o.chatRevisions.size > s.maxRecords) ||
      owner.isNone || valid.size ≠ db.drafts.size) then none
  else some ⟨valid, owner.getD (.blank s.ownerKey)⟩

/-- `_ownerTransaction`. Where an update changes something, the store keeps its drafts only:
what it left out is deleted, and the others are put again. -/
def ownerTransaction (s : RecoverySettings) (db : Database) (repairCorrupt : Bool)
    (update : Records → Updated) : Answer × Database :=
  match admitted s db repairCorrupt with
  | none => (.failed "corrupt", db)
  | some c =>
    let updated := update c
    (updated.answer,
      if updated.changed then ⟨updated.records.drafts, some updated.records.owner⟩ else db)

inductive Write where
  | save (chatId text : String) (revision : DraftRevision)
  | remove (chatId : String) (expectedText : Option String)
      (expectedRevision : Option DraftRevision) (revision : DraftRevision)
  | clear (revision : DraftRevision)

def Write.revision : Write → DraftRevision
  | .save _ _ revision => revision
  | .remove _ _ _ revision => revision
  | .clear revision => revision

/-- A store instance. `makeWriterId` draws an identifier of the right form. -/
structure Tab where
  writerId : { id : String // isWriterId id = true }
  sequence : Nat
  enabled : Bool

def Tab.nextRevision (tab : Tab) (now : Reading) : DraftRevision :=
  ⟨now.val, tab.writerId.val, tab.sequence + 1⟩

inductive Request where
  | saveDraft (chatId text : String)
  | removeDraft (chatId : String) (expectedText : Option String)
      (expectedRevision : Option DraftRevision)
  | clearAll

/-- The part of a call before its transaction. -/
def Tab.request (s : RecoverySettings) (tab : Tab) (now : Reading) : Request → Except String Write
  | .saveDraft chatId text =>
    if tab.enabled = false then .error "disabled"
    else if isChatId chatId = false then .error "invalid_scope"
    else if utf16Length text > s.maxDraftChars then .error "too_large"
    else if text = "" then .ok (.remove chatId none none (tab.nextRevision now))
    else .ok (.save chatId text (tab.nextRevision now))
  | .removeDraft chatId expectedText expectedRevision =>
    if isChatId chatId = false then .error "invalid_scope"
    else .ok (.remove chatId expectedText expectedRevision (tab.nextRevision now))
  | .clearAll => .ok (.clear (tab.nextRevision now))

def Write.commit (s : RecoverySettings) (db : Database) (now : Reading) : Write → Answer × Database
  | .save chatId text revision =>
    ownerTransaction s db false fun c => saveDraft s now c chatId text revision
  | .remove chatId expectedText expectedRevision revision =>
    ownerTransaction s db false fun c =>
      removeDraft s now c chatId expectedText expectedRevision revision
  | .clear revision => ownerTransaction s db true fun c => clearAll s c revision

/-- `restoreDraft`. -/
def restore (s : RecoverySettings) (db : Database) (now : Reading) (chatId : String) :
    Answer × Database :=
  ownerTransaction s db false fun c => restoreDraft s now c chatId

def Answer.isApplied : Answer → Bool
  | .saved _ => true
  | .removed took => took
  | .cleared => true
  | _ => false

/-- The database, the tabs, and the calls whose transaction has not run. The last field is
no data of the program: the writes that took effect so far. -/
structure World where
  db : Database
  tabs : List Tab
  waiting : List Write
  applied : List Write

def World.initial : World := ⟨⟨.empty, none⟩, [], [], []⟩

inductive Step where
  | openTab (writerId : { id : String // isWriterId id = true }) (enabled : Bool)
  | enable (tab : Nat) (enabled : Bool)
  | request (tab : Nat) (now : Reading) (call : Request)
  | commit (index : Nat) (now : Reading)
  | abort (index : Nat)
  | restore (tab : Nat) (now : Reading) (chatId : String)

def World.next (s : RecoverySettings) (w : World) : Step → Option World
  | .openTab writerId enabled => some { w with tabs := w.tabs ++ [⟨writerId, 0, enabled⟩] }
  | .enable i enabled => do
      let tab ← w.tabs[i]?
      some { w with tabs := w.tabs.set i { tab with enabled := enabled } }
  | .request i now call => do
      let tab ← w.tabs[i]?
      match tab.request s now call with
      | .error _ => some w
      | .ok write =>
        some { w with
          tabs := w.tabs.set i { tab with sequence := tab.sequence + 1 }
          waiting := w.waiting ++ [write] }
  | .commit i now => do
      let write ← w.waiting[i]?
      let result := write.commit s w.db now
      some { w with
        db := result.2
        waiting := w.waiting.eraseIdx i
        applied := w.applied ++ if result.1.isApplied then [write] else [] }
  | .abort i => do
      let _ ← w.waiting[i]?
      some { w with waiting := w.waiting.eraseIdx i }
  | .restore i now chatId => do
      let tab ← w.tabs[i]?
      if tab.enabled && isChatId chatId then
        some { w with db := (Panel.restore s w.db now chatId).2 }
      else some w

end CodexBridge.Panel
