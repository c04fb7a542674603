import CodexBridge.Library.Utf8

/-! # Fingerprints of Git metadata

`_metadata_fingerprint_fd` and `_metadata_fingerprint_path` read the same files of a metadata
directory and hash them: the first goes down the refs by recursion, the second with a stack. Time
limits and replaced files are left out, so that each is a function of the tree it reads.
-/

namespace CodexBridge.GitMetadata

open JsonText

/-! ## Trees -/

/-- The name of an entry of a directory: any text without a slash or a zero, surrogates included
where its bytes are not UTF-8. -/
structure Name where
  text : Text
  plain : ∀ c ∈ text, c.val ≠ 0x00 ∧ c.val ≠ 0x2F
  deriving DecidableEq

inductive Listing
  | nil
  | file (name : Name) (content : List UInt8) (rest : Listing)
  | directory (name : Name) (entries : Listing) (rest : Listing)
  | special (name : Name) (rest : Listing)

namespace Listing

def names : Listing → List Name
  | nil => []
  | file name _ rest => name :: rest.names
  | directory name _ rest => name :: rest.names
  | special name rest => name :: rest.names

def Distinct : Listing → Prop
  | nil => True
  | file name _ rest => name ∉ rest.names ∧ rest.Distinct
  | directory name entries rest => name ∉ rest.names ∧ entries.Distinct ∧ rest.Distinct
  | special name rest => name ∉ rest.names ∧ rest.Distinct

def files : Listing → List (List Name × List UInt8)
  | nil => []
  | file name content rest => ([name], content) :: rest.files
  | directory name entries rest =>
    (entries.files.map fun entry => (name :: entry.1, entry.2)) ++ rest.files
  | special _ rest => rest.files

def before (a b : Name) : Bool := decide (a.text.map Fin.val < b.text.map Fin.val)

def place (name : Name) (entry : Listing → Listing) : Listing → Listing
  | nil => entry nil
  | file n content rest =>
    if before name n then entry (file n content rest)
    else file n content (rest.place name entry)
  | directory n entries rest =>
    if before name n then entry (directory n entries rest)
    else directory n entries (rest.place name entry)
  | special n rest =>
    if before name n then entry (special n rest) else special n (rest.place name entry)

/-- Every listing as `_scandir_names_fd` and `_sorted_path_names` return it. -/
def sorted : Listing → Listing
  | nil => nil
  | file name content rest => rest.sorted.place name (file name content)
  | directory name entries rest => rest.sorted.place name (directory name entries.sorted)
  | special name rest => rest.sorted.place name (special name)

end Listing

/-- A metadata directory: the four files, the index with its `st_mtime_ns`, and the refs. -/
structure Metadata where
  head : Option (List UInt8)
  index : Option (Int × List UInt8)
  packedRefs : Option (List UInt8)
  shallow : Option (List UInt8)
  refs : Option Listing
  distinct : ∀ entries ∈ refs, entries.Distinct

def maxMetadataFiles : Nat := 50000

def maxRefIndexBytes : Nat := 16 * 1024 * 1024

def chunkBytes : Nat := 1024 * 1024

inductive Failure
  | tooLarge
  | unsafeEntry
  | encoding

/-- The budgets and the hash input so far. -/
structure Walk where
  bytes : Nat
  files : Nat
  entries : Nat
  input : List UInt8

namespace Walk

def start : Walk := ⟨0, 0, 0, []⟩

def update (w : Walk) (data : List UInt8) : Walk := { w with input := w.input ++ data }

def countFile (w : Walk) : Except Failure Walk :=
  if maxMetadataFiles < w.files + 1 then .error .tooLarge
  else .ok { w with files := w.files + 1 }

def countEntry (w : Walk) : Except Failure Walk :=
  if maxMetadataFiles < w.entries + 1 then .error .tooLarge
  else .ok { w with entries := w.entries + 1 }

/-- The loop over `stream.read(1024 * 1024)`. -/
def hashContent (content : List UInt8) (w : Walk) : Except Failure Walk :=
  if content = [] then .ok w
  else
    let chunk := content.take chunkBytes
    if maxRefIndexBytes < w.bytes + chunk.length then .error .tooLarge
    else hashContent (content.drop chunkBytes)
      { w with bytes := w.bytes + chunk.length, input := w.input ++ chunk }
  termination_by content.length
  decreasing_by
    have hpos : 0 < content.length := List.length_pos_iff.mpr ‹_›
    rw [List.length_drop, chunkBytes]
    omega

end Walk

def encoded (text : Text) : Except Failure (List UInt8) :=
  match encode text with
  | some bytes => .ok bytes
  | none => .error .encoding

def checkListing (entries : Listing) : Except Failure Unit :=
  if maxMetadataFiles < entries.names.length then .error .tooLarge else .ok ()

def ascii (text : String) : Text := ofChars text.toList

def slash : CodePoint := ofChar '/'

def stampText (mtime : Int) : Text := ascii "mtime_ns:" ++ integer mtime ++ [0]

/-- `_hash_metadata_file_fd` of a file that is there, under the name it is displayed with. -/
def hashMetadataFileFd (displayName : Text) (stamp : Option Int) (content : List UInt8)
    (w : Walk) : Except Failure Walk := do
  let w ← w.countFile
  let name ← encoded displayName
  let w := w.update (name ++ [0])
  let w ← match stamp with
    | none => pure w
    | some mtime => (encoded (stampText mtime)).map w.update
  w.hashContent content

/-- `_hash_metadata_file_fd` of an optional file. -/
def hashOptionalFd (name : String) (file : Option (Option Int × List UInt8)) (w : Walk) :
    Except Failure Walk :=
  match file with
  | none => (encoded (ascii name ++ ascii ":absent")).map w.update
  | some (stamp, content) => hashMetadataFileFd (ascii name) stamp content w

/-- A loop over sorted names that goes down into directories; `hashFile` is what is done with a
regular file. -/
def traverse (hashFile : Text → List UInt8 → Walk → Except Failure Walk) (shown : Text) :
    Listing → Walk → Except Failure Walk
  | .nil, w => .ok w
  | .file name content rest, w => do
      let w ← w.countEntry
      let w ← hashFile (shown ++ slash :: name.text) content w
      traverse hashFile shown rest w
  | .directory name entries rest, w => do
      let w ← w.countEntry
      let w ← w.countFile
      checkListing entries
      let w ← traverse hashFile (shown ++ slash :: name.text) entries w
      traverse hashFile shown rest w
  | .special _ _, w => do
      let _ ← w.countEntry
      .error .unsafeEntry

/-- `_hash_metadata_directory_fd` after its listing. -/
def hashMetadataDirectoryFd : Text → Listing → Walk → Except Failure Walk :=
  traverse fun shown content w => hashMetadataFileFd shown none content w

def unstamped (file : Option (List UInt8)) : Option (Option Int × List UInt8) :=
  file.map fun content => (none, content)

def stamped (file : Option (Int × List UInt8)) : Option (Option Int × List UInt8) :=
  file.map fun pair => (some pair.1, pair.2)

/-- `_metadata_fingerprint_fd(root_fd, deadline)`, the input of the digest. -/
def metadataFingerprintFd (root : Metadata) : Except Failure (List UInt8) := do
  let w ← hashOptionalFd "HEAD" (unstamped root.head) .start
  let w ← hashOptionalFd "index" (stamped root.index) w
  let w ← hashOptionalFd "packed-refs" (unstamped root.packedRefs) w
  let w ← hashOptionalFd "shallow" (unstamped root.shallow) w
  match root.refs with
  | none => (encoded (ascii "refs:absent")).map fun data => (w.update data).input
  | some refs => do
      let w ← w.countFile
      checkListing refs.sorted
      let w ← hashMetadataDirectoryFd (ascii "refs") refs.sorted w
      pure w.input

/-- `path.relative_to(root).as_posix()` of a path below the refs. -/
def asPosix (path : List Name) : Text := ascii "refs" ++ path.flatMap fun name => slash :: name.text

/-- The body of the first loop of `_metadata_fingerprint_path`. -/
def hashOptionalPath (name : String) (file : Option (Option Int × List UInt8)) (w : Walk) :
    Except Failure Walk :=
  match file with
  | none => (encoded (ascii name ++ ascii ":absent")).map w.update
  | some (stamp, content) => do
      let w ← w.countFile
      let shown ← encoded (ascii name)
      let w := w.update (shown ++ [0])
      let w ← match stamp with
        | none => pure w
        | some mtime => (encoded (stampText mtime)).map w.update
      w.hashContent content

/-- What `_metadata_fingerprint_path` does with a regular file of the refs: unlike the other
traversal it does not count the file. -/
def hashMetadataFilePath (relative : Text) (content : List UInt8) (w : Walk) :
    Except Failure Walk := do
  let name ← encoded relative
  (w.update (name ++ [0])).hashContent content

def Listing.count : Listing → Nat
  | .nil => 0
  | .file _ _ rest => rest.count + 1
  | .directory _ entries rest => entries.count + rest.count + 1
  | .special _ rest => rest.count + 1

abbrev Frame : Type := List Name × Listing

def remaining (stack : List Frame) : Nat := (stack.map fun frame => 2 * frame.2.count + 1).sum

/-- `_iter_metadata_paths` with the loop over what it yields. -/
def iterMetadataPaths : List Frame → Walk → Except Failure Walk
  | [], w => .ok w
  | (_, .nil) :: stack, w => iterMetadataPaths stack w
  | (directory, .file name content names) :: stack, w => do
      let w ← w.countEntry
      let w ← hashMetadataFilePath (asPosix (directory ++ [name])) content w
      iterMetadataPaths ((directory, names) :: stack) w
  | (directory, .directory name entries names) :: stack, w => do
      let w ← w.countEntry
      let w ← w.countFile
      checkListing entries
      iterMetadataPaths ((directory ++ [name], entries) :: (directory, names) :: stack) w
  | (_, .special _ _) :: _, w => do
      let _ ← w.countEntry
      .error .unsafeEntry
  termination_by stack => remaining stack
  decreasing_by
    all_goals
      simp only [remaining, Listing.count, List.map_cons, List.sum_cons]
      omega

/-- `_metadata_fingerprint_path(root, deadline)`, the input of the digest. -/
def metadataFingerprintPath (root : Metadata) : Except Failure (List UInt8) := do
  let w ← hashOptionalPath "HEAD" (unstamped root.head) .start
  let w ← hashOptionalPath "index" (stamped root.index) w
  let w ← hashOptionalPath "packed-refs" (unstamped root.packedRefs) w
  let w ← hashOptionalPath "shallow" (unstamped root.shallow) w
  match root.refs with
  | some refs => do
      let w ← w.countFile
      checkListing refs.sorted
      let w ← iterMetadataPaths [([], refs.sorted)] w
      pure w.input
  | none => (encoded (ascii "refs:absent")).map fun data => (w.update data).input

end CodexBridge.GitMetadata
