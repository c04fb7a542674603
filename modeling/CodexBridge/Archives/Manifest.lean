import CodexBridge.Downloads.Headers
import CodexBridge.Library.Doubles
import CodexBridge.Library.Effect
import Mathlib.Data.List.DropRight

/-! # Archive manifests

Before a ZIP archive is read its members are checked one after the other: names, kinds and
sizes, and that no two of them stand for one path, or for a file and something below it.
-/

namespace CodexBridge.Archives

open Effect
open Downloads (Unicode normalizePortableRelativePath)

/-! ## Members -/

inductive ArchiveError where
  /-- `QuotaExceededError`. -/
  | quotaExceeded (resource : String)
  | valueError

/-- What the checks read of a record of the central directory. -/
structure ZipInfo where
  filename : List Char
  flagBits : UInt16
  compressType : UInt16
  externalAttr : UInt32
  fileSize : UInt64
  compressSize : UInt64

def maxSqliteInteger : Nat := 9223372036854775807

/-- The limits that bear on archives, with what `__post_init__` checks of them. -/
structure ResourceLimits where
  maxArchiveEntries : Nat
  maxArchiveExpandedBytes : Nat
  maxArchiveExpansionRatio : ℚ
  positive : 0 < maxArchiveEntries ∧ 0 < maxArchiveExpandedBytes ∧ 0 < maxArchiveExpansionRatio
  entries_le : maxArchiveEntries ≤ maxSqliteInteger
  expanded_le : maxArchiveExpandedBytes ≤ maxSqliteInteger

/-- The interpreter's Unicode database: normal form `NFC` and `str.casefold` with the rest. -/
structure Database extends Unicode where
  nfc : List Char → List Char
  casefold : List Char → List Char

/-- The refusal of a member. -/
def refused : ArchiveError := .quotaExceeded "archive_entry"

def ZipInfo.isDir (info : ZipInfo) : Bool := info.filename.getLast? = some '/'

/-- The name without the slash that marks a directory. -/
def ZipInfo.portable (info : ZipInfo) : List Char :=
  if info.isDir then info.filename.dropLast else info.filename

/-- Components that no name may have. -/
def improper : List (List Char) := [[], ['.'], ['.', '.']]

/-- `PurePosixPath(path).parts`. -/
def pathParts (path : List Char) : List (List Char) :=
  let parts := (path.splitOn '/').filter fun part => part ≠ [] ∧ part ≠ ['.']
  if path.head? = some '/' then ['/'] :: parts else parts

/-- `stat.S_IFMT` of the mode in the external attributes. -/
def ZipInfo.fileType (info : ZipInfo) : UInt32 := info.externalAttr >>> 16 &&& 0xffff &&& 0xf000

local instance lawfulChars : LawfulBEq (List Char) := inferInstance

variable (u : Database)

def validateArchiveMember (info : ZipInfo) : Except ArchiveError (List Char) := do
  let name := info.filename
  refuse (name = [] ∨ '\\' ∈ name ∨ name.head? = some '/' ∨ Char.ofNat 0 ∈ name ∨
    name.any u.isOther) refused
  refuse (info.portable = [] ∨ ':' ∈ info.portable) refused
  refuse (∃ part ∈ info.portable.splitOn '/', part ∈ improper) refused
  let path ← (normalizePortableRelativePath u.toUnicode info.portable).elim (.error refused) .ok
  refuse (path.head? = some '/' ∨ ∃ part ∈ pathParts path, part ∈ improper) refused
  refuse (info.flagBits &&& 1 ≠ 0) refused
  -- `ZIP_STORED` and `ZIP_DEFLATED`.
  refuse (info.compressType ≠ 0 ∧ info.compressType ≠ 8) refused
  -- Nothing said, a regular file and, of directories, a directory.
  refuse (info.fileType ≠ 0 ∧ info.fileType ≠ 0x8000 ∧
    ¬ (info.isDir ∧ info.fileType = 0x4000)) refused
  return name

def expansionRatio (expandedBytes compressedBytes : Nat) : ℚ :=
  if expandedBytes ≤ 0 then 0
  else Doubles.round (expandedBytes / max compressedBytes 1 : ℚ)

structure StreamingByteCounter where
  limitBytes : Nat
  resource : String
  consumedBytes : Nat

def StreamingByteCounter.consume (counter : StreamingByteCounter) (byteCount : Nat) :
    Except ArchiveError StreamingByteCounter := do
  refuse (byteCount > maxSqliteInteger) .valueError
  let updated := counter.consumedBytes + byteCount
  refuse (updated > counter.limitBytes) (.quotaExceeded counter.resource)
  return { counter with consumedBytes := updated }

/-! ## `inspect_archive` -/

/-- The case-folded components of a name, by which members are compared. -/
def canonicalPath (name : List Char) : List (List Char) :=
  ((name.rdropWhile (· = '/')).splitOn '/').map fun part => u.casefold (u.nfc part)

/-- `canonical[:index] for index in range(1, len(canonical))`. -/
def parents (canonical : List (List Char)) : List (List (List Char)) :=
  (List.range' 1 (canonical.length - 1)).map fun index => canonical.take index

structure SafeArchiveEntry where
  name : List Char
  expandedBytes : Nat
  compressedBytes : Nat
  isDirectory : Bool

structure Progress where
  expanded : StreamingByteCounter
  totalCompressed : Nat
  seen : List (List (List Char))
  filePaths : List (List (List Char))
  parentPrefixes : List (List (List Char))
  result : List SafeArchiveEntry

variable (limits : ResourceLimits)

def inspectMember (s : Progress) (info : ZipInfo) : Except ArchiveError Progress := do
  let name ← validateArchiveMember u info
  let canonical := canonicalPath u name
  refuse (canonical ∈ s.seen) refused
  refuse (∃ parent ∈ parents canonical, parent ∈ s.filePaths) refused
  refuse (info.isDir = false ∧ canonical ∈ s.parentPrefixes) refused
  let expanded ← s.expanded.consume info.fileSize.toNat
  refuse (expansionRatio info.fileSize.toNat info.compressSize.toNat >
    limits.maxArchiveExpansionRatio) (.quotaExceeded "archive_ratio")
  return {
    expanded := expanded
    totalCompressed := s.totalCompressed + info.compressSize.toNat
    seen := s.seen ++ [canonical]
    filePaths := if info.isDir then s.filePaths else s.filePaths ++ [canonical]
    parentPrefixes := s.parentPrefixes ++ parents canonical
    result := s.result ++ [⟨name, info.fileSize.toNat, info.compressSize.toNat, info.isDir⟩] }

def inspectArchive (infos : List ZipInfo) : Except ArchiveError (List SafeArchiveEntry) := do
  refuse (infos.length > limits.maxArchiveEntries) (.quotaExceeded "archive_entries")
  let s ← infos.foldlM (inspectMember u limits)
    ⟨⟨limits.maxArchiveExpandedBytes, "archive_expanded", 0⟩, 0, [], [], [], []⟩
  refuse (expansionRatio s.expanded.consumedBytes s.totalCompressed >
    limits.maxArchiveExpansionRatio) (.quotaExceeded "archive_ratio")
  return s.result

/-! ## What one member needs of those before it -/

theorem mem_parents {p c : List (List Char)} : p ∈ parents c ↔ p ≠ [] ∧ p <+: c ∧ p ≠ c := by
  constructor
  · intro h
    obtain ⟨index, hindex, rfl⟩ := List.mem_map.mp h
    obtain ⟨hlow, hhigh⟩ := List.mem_range'_1.mp hindex
    have hlength : (c.take index).length = index := by
      rw [List.length_take]
      omega
    refine ⟨fun hnil => ?_, List.take_prefix index c, fun heq => ?_⟩
    · rw [hnil, List.length_nil] at hlength
      omega
    · rw [heq] at hlength
      omega
  · rintro ⟨hne, hbelow, hproper⟩
    have hpos := List.length_pos_of_ne_nil hne
    have hle := hbelow.length_le
    have hlt : p.length ≠ c.length := fun h => hproper (hbelow.eq_of_length h)
    refine List.mem_map.mpr ⟨p.length, List.mem_range'_1.mpr ⟨hpos, by omega⟩, ?_⟩
    exact (List.prefix_iff_eq_take.mp hbelow).symm

def ZipInfo.path (info : ZipInfo) : List (List Char) := canonicalPath u info.filename

theorem ZipInfo.path_ne_nil (info : ZipInfo) : info.path u ≠ [] := by
  intro h
  exact List.splitOn_ne_nil _ _ (List.map_eq_nil_iff.mp h)

/-- Two members that stand for different paths, neither of them below the other as a file. -/
def Apart (a b : ZipInfo) : Prop :=
  a.path u ≠ b.path u ∧ (a.isDir = false → a.path u ∉ parents (b.path u)) ∧
    (b.isDir = false → b.path u ∉ parents (a.path u))

instance : Std.Symm (Apart u) := ⟨fun _ _ h => ⟨h.1.symm, h.2.2, h.2.1⟩⟩

def expandedBytes (infos : List ZipInfo) : Nat := (infos.map (·.fileSize.toNat)).sum

def compressedBytes (infos : List ZipInfo) : Nat := (infos.map (·.compressSize.toNat)).sum

def entries (infos : List ZipInfo) : List SafeArchiveEntry :=
  infos.map fun info => ⟨info.filename, info.fileSize.toNat, info.compressSize.toNat, info.isDir⟩

/-- The variables of the loop after some members. -/
def progress (infos : List ZipInfo) : Progress where
  expanded := ⟨limits.maxArchiveExpandedBytes, "archive_expanded", expandedBytes infos⟩
  totalCompressed := compressedBytes infos
  seen := infos.map (·.path u)
  filePaths := (infos.filter (!·.isDir)).map (·.path u)
  parentPrefixes := infos.flatMap fun info => parents (info.path u)
  result := entries infos

/-- A member that may stand in an archive by itself. -/
def Admissible (info : ZipInfo) : Prop :=
  validateArchiveMember u info = .ok info.filename ∧
    expansionRatio info.fileSize.toNat info.compressSize.toNat ≤ limits.maxArchiveExpansionRatio

variable {u limits}

theorem validateArchiveMember_eq {info : ZipInfo} {name : List Char}
    (h : validateArchiveMember u info = .ok name) :
    name = info.filename ∧ info.filename.head? ≠ some '/' ∧
      ∀ part ∈ info.portable.splitOn '/', part ∉ improper := by
  unfold validateArchiveMember at h
  simp only [↓refuse_bind_eq_ok, except_bind_eq_ok] at h
  obtain ⟨hname, _, hparts, _, _, _, _, _, _, h⟩ := h
  push Not at hname hparts
  exact ⟨(Except.ok.inj h).symm, hname.2.2.1, hparts⟩

/-- The three sets of the loop say whether a member is apart from all those before it. -/
theorem apart_iff {done : List ZipInfo} {info : ZipInfo} :
    (∀ a ∈ done, Apart u a info) ↔
      info.path u ∉ (progress u limits done).seen ∧
      (¬ ∃ parent ∈ parents (info.path u), parent ∈ (progress u limits done).filePaths) ∧
      ¬ (info.isDir = false ∧ info.path u ∈ (progress u limits done).parentPrefixes) := by
  constructor
  · intro h
    refine ⟨fun hmem => ?_, ?_, ?_⟩
    · obtain ⟨a, ha, heq⟩ := List.mem_map.mp hmem
      exact (h a ha).1 heq
    · rintro ⟨_, hparent, hmem⟩
      obtain ⟨a, ha, rfl⟩ := List.mem_map.mp hmem
      obtain ⟨ha, hfile⟩ := List.mem_filter.mp ha
      exact (h a ha).2.1 (by simpa using hfile) hparent
    · rintro ⟨hfile, hmem⟩
      obtain ⟨a, ha, hin⟩ := List.mem_flatMap.mp hmem
      exact (h a ha).2.2 hfile hin
  · rintro ⟨hseen, hfiles, hparents⟩ a ha
    refine ⟨fun heq => ?_, fun hfile hin => ?_, fun hfile hin => ?_⟩
    · exact hseen (List.mem_map.mpr ⟨a, ha, heq⟩)
    · have hmem : a ∈ done.filter (!·.isDir) := List.mem_filter.mpr ⟨ha, by simp [hfile]⟩
      exact hfiles ⟨_, hin, List.mem_map.mpr ⟨a, hmem, rfl⟩⟩
    · exact hparents ⟨hfile, List.mem_flatMap.mpr ⟨a, ha, hin⟩⟩

theorem progress_append (done : List ZipInfo) (info : ZipInfo) :
    progress u limits (done ++ [info]) =
      { expanded := ⟨limits.maxArchiveExpandedBytes, "archive_expanded",
          expandedBytes done + info.fileSize.toNat⟩
        totalCompressed := compressedBytes done + info.compressSize.toNat
        seen := (progress u limits done).seen ++ [info.path u]
        filePaths :=
          if info.isDir then (progress u limits done).filePaths
          else (progress u limits done).filePaths ++ [info.path u]
        parentPrefixes := (progress u limits done).parentPrefixes ++ parents (info.path u)
        result := entries done ++
          [⟨info.filename, info.fileSize.toNat, info.compressSize.toNat, info.isDir⟩] } := by
  cases hdir : info.isDir <;> simp [progress, expandedBytes, compressedBytes, entries, hdir]

theorem inspectMember_iff (done : List ZipInfo) (info : ZipInfo) (s : Progress) :
    inspectMember u limits (progress u limits done) info = .ok s ↔
      (Admissible u limits info ∧ (∀ a ∈ done, Apart u a info) ∧
        expandedBytes (done ++ [info]) ≤ limits.maxArchiveExpandedBytes) ∧
      s = progress u limits (done ++ [info]) := by
  have hsum : expandedBytes (done ++ [info]) = expandedBytes done + info.fileSize.toNat := by
    simp [expandedBytes]
  have hlimit := limits.expanded_le
  rw [@apart_iff u limits, progress_append, hsum]
  unfold inspectMember StreamingByteCounter.consume
  simp only [↓refuse_bind_eq_ok, except_bind_eq_ok]
  constructor
  · rintro ⟨name, hvalid, hseen, hfiles, hparents, counter, ⟨_, hbytes, hcounter⟩, hratio, h⟩
    obtain ⟨rfl, _⟩ := validateArchiveMember_eq hvalid
    cases hcounter
    cases h
    exact ⟨⟨⟨hvalid, not_lt.mp hratio⟩, ⟨hseen, hfiles, hparents⟩, not_lt.mp hbytes⟩, rfl⟩
  · rintro ⟨⟨⟨hvalid, hratio⟩, ⟨hseen, hfiles, hparents⟩, hbytes⟩, rfl⟩
    exact ⟨_, hvalid, hseen, hfiles, hparents, _, ⟨by omega, not_lt.mpr hbytes, rfl⟩,
      not_lt.mpr hratio, rfl⟩

variable (u limits)

/-- What the loop lets through; the order of the members is not in it. -/
structure Admitted (infos : List ZipInfo) : Prop where
  admissible : ∀ info ∈ infos, Admissible u limits info
  apart : infos.Pairwise (Apart u)
  expanded : expandedBytes infos ≤ limits.maxArchiveExpandedBytes

variable {u limits}

theorem admitted_append {done : List ZipInfo} {info : ZipInfo} :
    Admitted u limits (done ++ [info]) ↔ Admitted u limits done ∧ Admissible u limits info ∧
      (∀ a ∈ done, Apart u a info) ∧
        expandedBytes (done ++ [info]) ≤ limits.maxArchiveExpandedBytes := by
  constructor
  · rintro ⟨hall, hpair, hsum⟩
    obtain ⟨hdone, hinfo⟩ := List.forall_mem_append.mp hall
    obtain ⟨hpair, _, hapart⟩ := List.pairwise_append.mp hpair
    have hle : expandedBytes done ≤ expandedBytes (done ++ [info]) := by simp [expandedBytes]
    exact ⟨⟨hdone, hpair, hle.trans hsum⟩, hinfo info (List.mem_singleton_self info),
      fun a ha => hapart a ha info (List.mem_singleton_self info), hsum⟩
  · rintro ⟨⟨hall, hpair, _⟩, hinfo, hapart, hsum⟩
    refine ⟨List.forall_mem_append.mpr ⟨hall, by simpa using hinfo⟩, ?_, hsum⟩
    exact List.pairwise_append.mpr ⟨hpair, List.pairwise_singleton _ _, by simpa using hapart⟩

theorem inspectMembers_iff (infos : List ZipInfo) : ∀ s,
    infos.foldlM (inspectMember u limits) (progress u limits []) = .ok s ↔
      Admitted u limits infos ∧ s = progress u limits infos := by
  induction infos using List.reverseRecOn with
  | nil =>
    intro s
    have hnone : Admitted u limits [] := ⟨by simp, List.Pairwise.nil, Nat.zero_le _⟩
    simp [pure, Except.pure, hnone, eq_comm]
  | append_singleton done info ih =>
    intro s
    simp only [List.foldlM_append, List.foldlM_cons, List.foldlM_nil, bind_pure, except_bind_eq_ok,
      admitted_append]
    constructor
    · rintro ⟨t, hdone, hstep⟩
      obtain ⟨hadmitted, rfl⟩ := (ih t).mp hdone
      obtain ⟨hfits, rfl⟩ := (inspectMember_iff done info s).mp hstep
      exact ⟨⟨hadmitted, hfits⟩, rfl⟩
    · rintro ⟨⟨hadmitted, hfits⟩, rfl⟩
      exact ⟨_, (ih _).mpr ⟨hadmitted, rfl⟩, (inspectMember_iff done info _).mpr ⟨hfits, rfl⟩⟩

variable (u limits)

/-- The manifest of an accepted archive. -/
structure Sound (infos : List ZipInfo) : Prop extends Admitted u limits infos where
  few : infos.length ≤ limits.maxArchiveEntries
  ratio : expansionRatio (expandedBytes infos) (compressedBytes infos) ≤
    limits.maxArchiveExpansionRatio

variable {u limits}

theorem Sound.perm {infos infos' : List ZipInfo} (h : Sound u limits infos)
    (hperm : infos.Perm infos') : Sound u limits infos' := by
  have hexpanded : expandedBytes infos = expandedBytes infos' := (hperm.map _).sum_eq
  have hcompressed : compressedBytes infos = compressedBytes infos' := (hperm.map _).sum_eq
  refine ⟨⟨?_, (hperm.pairwise_iff symm).mp h.apart, hexpanded ▸ h.expanded⟩,
    hperm.length_eq ▸ h.few, hexpanded ▸ hcompressed ▸ h.ratio⟩
  intro info hinfo
  exact h.admissible info (hperm.mem_iff.mpr hinfo)

theorem inspectArchive_iff {infos : List ZipInfo} {result : List SafeArchiveEntry} :
    inspectArchive u limits infos = .ok result ↔
      Sound u limits infos ∧ result = entries infos := by
  have hrun := @inspectMembers_iff u limits infos
  unfold inspectArchive
  simp only [↓refuse_bind_eq_ok, except_bind_eq_ok]
  constructor
  · rintro ⟨hfew, s, hfold, hratio, h⟩
    obtain ⟨hadmitted, rfl⟩ := (hrun s).mp hfold
    cases h
    exact ⟨⟨hadmitted, not_lt.mp hfew, not_lt.mp hratio⟩, rfl⟩
  · rintro ⟨h, rfl⟩
    exact ⟨not_lt.mpr h.few, _, (hrun _).mpr ⟨h.toAdmitted, rfl⟩, not_lt.mpr h.ratio, rfl⟩

/-- No accepted file stands above another member. -/
theorem Sound.unnested {infos : List ZipInfo} (h : Sound u limits infos) {a b : ZipInfo}
    (ha : a ∈ infos) (hb : b ∈ infos) (hfile : a.isDir = false)
    (hbelow : a.path u <+: b.path u) : a.path u = b.path u := by
  by_contra hne
  have hab : a ≠ b := fun heq => hne (heq ▸ rfl)
  have hapart : Apart u a b := h.apart.forall ha hb hab
  exact hapart.2.1 hfile (mem_parents.mpr ⟨a.path_ne_nil u, hbelow, hne⟩)

def Accepts (u : Database) (limits : ResourceLimits) (infos : List ZipInfo) : Prop :=
  ∃ result, inspectArchive u limits infos = .ok result

theorem accepts_iff {infos : List ZipInfo} : Accepts u limits infos ↔ Sound u limits infos := by
  constructor
  · rintro ⟨_, h⟩
    exact (inspectArchive_iff.mp h).1
  · intro h
    exact ⟨_, inspectArchive_iff.mpr ⟨h, rfl⟩⟩

/-- An accepted manifest is safe, and its acceptance does not hang on the order of the members. -/
theorem inspectArchive_safe (u : Database) (limits : ResourceLimits) (infos : List ZipInfo) :
    (Accepts u limits infos →
      (infos.map (·.path u)).Nodup ∧
      (∀ a ∈ infos, a.isDir = false → ∀ b ∈ infos, a.path u <+: b.path u → a.path u = b.path u) ∧
      (∀ a ∈ infos, a.filename.head? ≠ some '/' ∧
        ∀ part ∈ a.portable.splitOn '/', part ≠ [] ∧ part ≠ ['.'] ∧ part ≠ ['.', '.']) ∧
      expandedBytes infos ≤ limits.maxArchiveExpandedBytes ∧
      (∀ a ∈ infos, expansionRatio a.fileSize.toNat a.compressSize.toNat ≤
        limits.maxArchiveExpansionRatio) ∧
      expansionRatio (expandedBytes infos) (compressedBytes infos) ≤
        limits.maxArchiveExpansionRatio) ∧
    ∀ infos' : List ZipInfo, infos.Perm infos' →
      (Accepts u limits infos ↔ Accepts u limits infos') := by
  refine ⟨fun h => ?_, fun infos' hperm => ?_⟩
  · have hsound := accepts_iff.mp h
    refine ⟨?_, fun a ha hfile b hb => hsound.unnested ha hb hfile, fun a ha => ?_,
      hsound.expanded, fun a ha => (hsound.admissible a ha).2, hsound.ratio⟩
    · exact List.pairwise_map.mpr (hsound.apart.imp fun hab => hab.1)
    · simpa [improper] using (validateArchiveMember_eq (hsound.admissible a ha).1).2
  · rw [accepts_iff, accepts_iff]
    exact ⟨fun h => h.perm hperm, fun h => h.perm hperm.symm⟩

theorem isOther_of_control (c : Char) (hc : c.toNat < 32 ∨ c.toNat = 127) :
    (c.toNat < 32 || c.toNat = 127) = true := by
  simpa using hc

/-- The database, of ASCII only. -/
def asciiDatabase : Database where
  isOther c := c.toNat < 32 || c.toNat = 127
  isSpace c := c = ' '
  upper := List.map Char.toUpper
  isOther_control := isOther_of_control
  nfc := id
  casefold := List.map Char.toLower

def defaultLimits : ResourceLimits where
  maxArchiveEntries := 20000
  maxArchiveExpandedBytes := 2147483648
  maxArchiveExpansionRatio := 100
  positive := by norm_num
  entries_le := by decide
  expanded_le := by decide

def notes : List ZipInfo :=
  [⟨"Docs/".toList, 0, 0, 0x41ed0010, 0, 0⟩, ⟨"docs/a.md".toList, 0, 8, 0x81a40000, 640, 64⟩]

theorem accepts_notes : Accepts asciiDatabase defaultLimits notes := by
  have hok : (inspectArchive asciiDatabase defaultLimits notes).isOk := by decide +kernel
  cases h : inspectArchive asciiDatabase defaultLimits notes with
  | error e =>
    rw [h] at hok
    cases hok
  | ok result => exact ⟨result, h⟩

theorem inspectArchive_safe_notes :
    (notes.map (·.path asciiDatabase)).Nodup ∧
      Accepts asciiDatabase defaultLimits notes.reverse := by
  have h := inspectArchive_safe asciiDatabase defaultLimits notes
  exact ⟨(h.1 accepts_notes).1, (h.2 _ (List.reverse_perm notes).symm).mp accepts_notes⟩

end CodexBridge.Archives
