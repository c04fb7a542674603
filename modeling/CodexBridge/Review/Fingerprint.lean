import CodexBridge.Library.Effect
import CodexBridge.Library.Records
import CodexBridge.Review.Metadata

/-! # When fingerprints agree and separate

Both traversals hash the same records. The one through descriptors counts every regular file of
the refs against the budget of files, the other one only directories; and the records are hashed
without lengths, so that a content can stand for the records after it.
-/

namespace CodexBridge.GitMetadata

open JsonText Records

/-! ## Amounts -/

namespace Walk

def add (w v : Walk) : Walk :=
  ⟨w.bytes + v.bytes, w.files + v.files, w.entries + v.entries, w.input ++ v.input⟩

def Within (w : Walk) : Prop :=
  w.bytes ≤ maxRefIndexBytes ∧ w.files ≤ maxMetadataFiles ∧ w.entries ≤ maxMetadataFiles

theorem add_assoc (w v u : Walk) : (w.add v).add u = w.add (v.add u) := by
  simp [add, Nat.add_assoc]

@[simp] theorem add_start (w : Walk) : w.add .start = w := by
  simp [add, start]

@[simp] theorem start_add (w : Walk) : Walk.start.add w = w := by
  simp [add, start]

theorem Within.left {w v : Walk} (h : (w.add v).Within) : w.Within := by
  unfold Within add at *
  simp only at h
  omega

end Walk

/-- The operation succeeds where the condition holds and the budgets allow it, and then adds a
fixed amount. -/
def Adds (f : Walk → Except Failure Walk) (p : Prop) (v : Walk) : Prop :=
  ∀ w w' : Walk, w.Within → (f w = .ok w' ↔ p ∧ (w.add v).Within ∧ w' = w.add v)

theorem Adds.pure : Adds .ok True .start := by
  intro w w' hw
  simp [hw, eq_comm]

theorem Adds.bind {f g : Walk → Except Failure Walk} {p q : Prop} {v u : Walk} (hf : Adds f p v)
    (hg : Adds g q u) : Adds (fun w => f w >>= g) (p ∧ q) (v.add u) := by
  intro w w' hw
  simp only [Effect.except_bind_eq_ok, hf w _ hw, ← Walk.add_assoc]
  constructor
  · rintro ⟨m, ⟨hp, hm, rfl⟩, hrest⟩
    have hafter := (hg _ w' hm).mp hrest
    exact ⟨⟨hp, hafter.1⟩, hafter.2⟩
  · rintro ⟨⟨hp, hq⟩, hwithin, rfl⟩
    have hm : (w.add v).Within := hwithin.left
    exact ⟨w.add v, ⟨hp, hm, rfl⟩, (hg _ _ hm).mpr ⟨hq, hwithin, rfl⟩⟩

theorem Adds.of_iff {f : Walk → Except Failure Walk} {p q : Prop} {v : Walk} (h : Adds f p v)
    (hpq : p ↔ q) : Adds f q v := by
  intro w w' hw
  rw [h w w' hw, hpq]

theorem adds_countFile : Adds Walk.countFile True ⟨0, 1, 0, []⟩ := by
  intro w w' hw
  unfold Walk.countFile Walk.add Walk.Within at *
  by_cases h : maxMetadataFiles < w.files + 1
  · rw [if_pos h]
    simp only [reduceCtorEq, false_iff, not_and]
    omega
  · simp [h, eq_comm]
    omega

theorem adds_countEntry : Adds Walk.countEntry True ⟨0, 0, 1, []⟩ := by
  intro w w' hw
  unfold Walk.countEntry Walk.add Walk.Within at *
  by_cases h : maxMetadataFiles < w.entries + 1
  · rw [if_pos h]
    simp only [reduceCtorEq, false_iff, not_and]
    omega
  · simp [h, eq_comm]
    omega

/-- The reads of a file come to its whole content. -/
theorem adds_hashContent (content : List UInt8) :
    Adds (Walk.hashContent content) True ⟨content.length, 0, 0, content⟩ := by
  intro w w' hw
  fun_induction Walk.hashContent content w with
  | case1 w => simp [Walk.add, hw, eq_comm]
  | case2 content w hne chunk hover =>
    have hlength : chunk.length ≤ content.length := List.length_take_le' _ _
    simp [Walk.add, Walk.Within]
    omega
  | case3 content w hne chunk hfits ih =>
    have hsplit : chunk.length + (content.drop chunkBytes).length = content.length := by
      rw [← List.length_append, List.take_append_drop]
    have hwhole : chunk ++ content.drop chunkBytes = content := List.take_append_drop _ _
    have hmiddle : Walk.Within
        { w with bytes := w.bytes + chunk.length, input := w.input ++ chunk } := by
      unfold Walk.Within at *
      simp only
      omega
    rw [ih hmiddle]
    simp only [Walk.add, List.append_assoc, hwhole, Nat.add_assoc, hsplit]

theorem adds_update (text : Text) :
    Adds (fun w => (encoded text).map w.update) (encode text).isSome ⟨0, 0, 0, bytesOf text⟩ := by
  intro w w' hw
  unfold encoded bytesOf
  cases h : encode text with
  | none => simp [Except.map]
  | some bytes =>
    have hadded : (w.add ⟨0, 0, 0, bytes⟩).Within := hw
    simp [Except.map, Walk.update, hadded, eq_comm]
    rfl

theorem adds_encoded (text : Text) (f : List UInt8 → Walk → Except Failure Walk) {p : Prop}
    {v : Walk} (h : Adds (f (bytesOf text)) p v) :
    Adds (fun w => encoded text >>= fun bytes => f bytes w) ((encode text).isSome ∧ p) v := by
  intro w w' hw
  have hf := h w w' hw
  unfold encoded bytesOf at *
  cases henc : encode text with
  | none => simp [bind, Except.bind]
  | some bytes =>
    rw [henc] at hf
    simpa [bind, Except.bind] using hf

theorem adds_checkListing (entries : Listing) {f : Walk → Except Failure Walk} {p : Prop}
    {v : Walk} (h : Adds f p v) (hlength : entries.names.length ≤ v.entries) :
    Adds (fun w => checkListing entries >>= fun _ => f w) p v := by
  intro w w' hw
  unfold checkListing
  by_cases hover : maxMetadataFiles < entries.names.length
  · have hno : ¬ (w.add v).Within := by
      unfold Walk.Within Walk.add
      simp only
      omega
    simp [hover, hno, bind, Except.bind]
  · simpa [hover, bind, Except.bind] using h w w' hw

theorem adds_after_update {f : Walk → Except Failure Walk} {p : Prop} {v : Walk} (h : Adds f p v)
    (data : List UInt8) : Adds (fun w => f (w.update data)) p (Walk.add ⟨0, 0, 0, data⟩ v) := by
  intro w w' hw
  have hupdated : (w.update data).Within := hw
  have hadd : (w.update data).add v = w.add (Walk.add ⟨0, 0, 0, data⟩ v) := by
    simp [Walk.update, Walk.add]
  rw [h _ w' hupdated, hadd]

def stampBytes : Option Int → List UInt8
  | none => []
  | some mtime => bytesOf (stampText mtime)

theorem ascii_le {text : String} (h : text.toList.all (fun c => decide (c.toNat ≤ 0x7F)) = true) :
    ∀ c ∈ ascii text, c.val ≤ 0x7F := by
  intro c hc
  obtain ⟨d, hd, rfl⟩ := List.mem_map.mp hc
  exact of_decide_eq_true (List.all_eq_true.mp h d hd)

theorem isSome_encode_stampText (mtime : Int) : (encode (stampText mtime)).isSome := by
  have hascii : ∀ c ∈ stampText mtime, c.val ≤ 0x7F := by
    intro c hc
    simp only [stampText, List.mem_append, List.mem_singleton] at hc
    rcases hc with (hc | hc) | rfl
    · exact ascii_le (by decide) c hc
    · have hdigit := mem_integer hc
      omega
    · decide
  exact isSome_encode_of_ascii hascii

theorem adds_hashMetadataFileFd (shown : Text) (stamp : Option Int) (content : List UInt8) :
    Adds (hashMetadataFileFd shown stamp content) (encode shown).isSome
      ⟨content.length, 1, 0, bytesOf shown ++ [0] ++ stampBytes stamp ++ content⟩ := by
  have hcontent := adds_hashContent content
  cases stamp with
  | none =>
    have hbody := adds_encoded shown
      (fun name w => (w.update (name ++ [0])).hashContent content)
      (adds_after_update hcontent (bytesOf shown ++ [0]))
    have hfile := (adds_countFile.bind hbody).of_iff (q := (encode shown).isSome) (by simp)
    simp only [Walk.add, stampBytes, List.append_assoc, Nat.zero_add, Nat.add_zero,
      List.nil_append] at hfile ⊢
    exact hfile
  | some mtime =>
    have hstamp := (adds_update (stampText mtime)).bind hcontent
    have hbody := adds_encoded shown
      (fun name w => (encoded (stampText mtime)).map (w.update (name ++ [0])).update >>=
        Walk.hashContent content)
      (adds_after_update hstamp (bytesOf shown ++ [0]))
    have hfile := (adds_countFile.bind hbody).of_iff (q := (encode shown).isSome)
      (by simp [isSome_encode_stampText])
    simp only [Walk.add, stampBytes, List.append_assoc, Nat.zero_add, Nat.add_zero,
      List.nil_append] at hfile ⊢
    exact hfile

theorem adds_hashMetadataFilePath (relative : Text) (content : List UInt8) :
    Adds (hashMetadataFilePath relative content) (encode relative).isSome
      ⟨content.length, 0, 0, bytesOf relative ++ [0] ++ content⟩ := by
  have hbody := adds_encoded relative
    (fun name w => (w.update (name ++ [0])).hashContent content)
    (adds_after_update (adds_hashContent content) (bytesOf relative ++ [0]))
  have hfile := hbody.of_iff (q := (encode relative).isSome) (by simp)
  simp only [Walk.add, List.append_assoc, Nat.zero_add] at hfile ⊢
  exact hfile

def optionalAmount (name : String) : Option (Option Int × List UInt8) → Walk
  | none => ⟨0, 0, 0, bytesOf (ascii name ++ ascii ":absent")⟩
  | some (stamp, content) =>
    ⟨content.length, 1, 0, bytesOf (ascii name) ++ [0] ++ stampBytes stamp ++ content⟩

theorem adds_hashOptionalFd (name : String) (hname : (encode (ascii name)).isSome)
    (file : Option (Option Int × List UInt8)) :
    Adds (hashOptionalFd name file) True (optionalAmount name file) := by
  cases file with
  | none =>
    have habsent : (encode (ascii name ++ ascii ":absent")).isSome :=
      isSome_encode_append.mpr ⟨hname, by decide⟩
    exact (adds_update _).of_iff (by simp [habsent])
  | some pair =>
    obtain ⟨stamp, content⟩ := pair
    exact (adds_hashMetadataFileFd _ _ _).of_iff (by simp [hname])

theorem hashOptionalPath_eq (name : String) (file : Option (Option Int × List UInt8)) :
    hashOptionalPath name file = hashOptionalFd name file := by
  funext w
  cases file <;> rfl

inductive Top
  | head
  | index
  | packedRefs
  | shallow
  | refs
  deriving DecidableEq

def Top.name : Top → String
  | .head => "HEAD"
  | .index => "index"
  | .packedRefs => "packed-refs"
  | .shallow => "shallow"
  | .refs => "refs"

inductive Marker
  | absent (top : Top)
  | present (top : Top)
  | stamped (mtime : Int)
  | ref (path : List Name)
  deriving DecidableEq

def mark : Marker → List UInt8
  | .absent top => bytesOf (ascii top.name ++ ascii ":absent")
  | .present top => bytesOf (ascii top.name) ++ [0]
  | .stamped mtime => bytesOf (ascii "index") ++ [0] ++ bytesOf (stampText mtime)
  | .ref path => bytesOf (asPosix path) ++ [0]

abbrev Record : Type := Marker × List UInt8

/-- The record of `HEAD`, `packed-refs` or `shallow`. -/
def topRecord (top : Top) : Option (List UInt8) → Record
  | none => (.absent top, [])
  | some content => (.present top, content)

def indexRecord : Option (Int × List UInt8) → Record
  | none => (.absent .index, [])
  | some (mtime, content) => (.stamped mtime, content)

def refRecords (directory : List Name) (entries : Listing) : List Record :=
  entries.files.map fun entry => (.ref (directory ++ entry.1), entry.2)

namespace Metadata

def listing (root : Metadata) : Listing := (root.refs.getD .nil).sorted

/-- The records of a metadata directory in the order in which they are hashed. -/
def records (root : Metadata) : List Record :=
  [topRecord .head root.head, indexRecord root.index, topRecord .packedRefs root.packedRefs,
    topRecord .shallow root.shallow] ++
    match root.refs with
    | none => [(.absent .refs, [])]
    | some refs => refRecords [] refs.sorted

end Metadata

namespace Listing

def size : Listing → Nat
  | nil => 0
  | file _ content rest => content.length + rest.size
  | directory _ entries rest => entries.size + rest.size
  | special _ rest => rest.size

def directories : Listing → Nat
  | nil => 0
  | file _ _ rest => rest.directories
  | directory _ entries rest => entries.directories + rest.directories + 1
  | special _ rest => rest.directories

def regular : Listing → Nat
  | nil => 0
  | file _ _ rest => rest.regular + 1
  | directory _ entries rest => entries.regular + rest.regular
  | special _ rest => rest.regular

def Plain : Listing → Prop
  | nil => True
  | file _ _ rest => rest.Plain
  | directory _ entries rest => entries.Plain ∧ rest.Plain
  | special _ _ => False

def Encodable (directory : List Name) (entries : Listing) : Prop :=
  ∀ entry ∈ entries.files, (encode (asPosix (directory ++ entry.1))).isSome

theorem length_names_le_count (entries : Listing) : entries.names.length ≤ entries.count := by
  induction entries with
  | nil => simp [names, count]
  | file name content rest ih =>
    simp [names, count]
    omega
  | directory name entries rest _ ih =>
    simp [names, count]
    omega
  | special name rest ih =>
    simp [names, count]
    omega

theorem count_eq {entries : Listing} (h : entries.Plain) :
    entries.count = entries.directories + entries.regular := by
  induction entries with
  | nil => rfl
  | file name content rest ih =>
    have hrest := ih h
    simp only [count, directories, regular]
    omega
  | directory name entries rest ihEntries ihRest =>
    have hentries := ihEntries h.1
    have hrest := ihRest h.2
    simp only [count, directories, regular]
    omega
  | special name rest ih => exact h.elim

end Listing

theorem asPosix_snoc (directory : List Name) (name : Name) :
    asPosix (directory ++ [name]) = asPosix directory ++ slash :: name.text := by
  simp [asPosix]

theorem refRecords_file (directory : List Name) (name : Name) (content : List UInt8)
    (rest : Listing) :
    refRecords directory (.file name content rest) =
      (.ref (directory ++ [name]), content) :: refRecords directory rest := rfl

theorem refRecords_directory (directory : List Name) (name : Name) (entries rest : Listing) :
    refRecords directory (.directory name entries rest) =
      refRecords (directory ++ [name]) entries ++ refRecords directory rest := by
  simp [refRecords, Listing.files, Function.comp_def]

theorem refRecords_special (directory : List Name) (name : Name) (rest : Listing) :
    refRecords directory (.special name rest) = refRecords directory rest := rfl

/-- What the entries of a directory add where each regular file counts as `k` files. -/
def amount (k : Nat) (directory : List Name) (entries : Listing) : Walk :=
  ⟨entries.size, entries.directories + k * entries.regular, entries.count,
    stream mark (refRecords directory entries)⟩

theorem adds_traverse {k : Nat} {hashFile : Text → List UInt8 → Walk → Except Failure Walk}
    (hfile : ∀ shown content, Adds (hashFile shown content) (encode shown).isSome
      ⟨content.length, k, 0, bytesOf shown ++ [0] ++ content⟩) (entries : Listing)
    (directory : List Name) :
    Adds (traverse hashFile (asPosix directory) entries)
      (entries.Plain ∧ entries.Encodable directory) (amount k directory entries) := by
  induction entries generalizing directory with
  | nil =>
    have hnil : Adds (traverse hashFile (asPosix directory) .nil) True .start := Adds.pure
    exact hnil.of_iff (by simp [Listing.Plain, Listing.Encodable, Listing.files])
  | file name content rest ih =>
    have hstep := adds_countEntry.bind
      ((hfile (asPosix directory ++ slash :: name.text) content).bind (ih directory))
    have hamount : amount k directory (.file name content rest) =
        Walk.add ⟨0, 0, 1, []⟩ (Walk.add ⟨content.length, k, 0,
          bytesOf (asPosix directory ++ slash :: name.text) ++ [0] ++ content⟩
            (amount k directory rest)) := by
      simp [amount, Walk.add, Listing.size, Listing.directories, Listing.regular,
        Listing.count, refRecords_file, mark, asPosix_snoc, Nat.mul_succ]
      omega
    rw [hamount]
    refine Adds.of_iff hstep ?_
    simp only [Listing.Plain, Listing.Encodable, Listing.files, List.forall_mem_cons,
      asPosix_snoc, true_and]
    tauto
  | directory name entries rest ihEntries ihRest =>
    have hinner := (ihEntries (directory ++ [name])).bind (ihRest directory)
    have hlength : entries.names.length ≤
        ((amount k (directory ++ [name]) entries).add (amount k directory rest)).entries := by
      have hnames := entries.length_names_le_count
      simp only [amount, Walk.add]
      omega
    have hstep := adds_countEntry.bind
      (adds_countFile.bind (adds_checkListing entries hinner hlength))
    have hamount : amount k directory (.directory name entries rest) =
        Walk.add ⟨0, 0, 1, []⟩ (Walk.add ⟨0, 1, 0, []⟩
          ((amount k (directory ++ [name]) entries).add (amount k directory rest))) := by
      simp [amount, Walk.add, Listing.size, Listing.directories, Listing.regular,
        Listing.count, refRecords_directory, stream_append, Nat.mul_add]
      omega
    rw [asPosix_snoc] at hstep
    rw [hamount]
    refine Adds.of_iff hstep ?_
    simp only [Listing.Plain, Listing.Encodable, Listing.files, List.mem_append, or_imp,
      forall_and, List.forall_mem_map, List.append_assoc, List.singleton_append, true_and]
    tauto
  | special name rest ih =>
    intro w w' hw
    have herror : traverse hashFile (asPosix directory) (.special name rest) w ≠ .ok w' := by
      simp [traverse, Effect.except_bind_eq_ok]
    simp [herror, Listing.Plain]

theorem iterMetadataPaths_cons (entries : Listing) (directory : List Name) (stack : List Frame)
    (w : Walk) :
    iterMetadataPaths ((directory, entries) :: stack) w =
      traverse hashMetadataFilePath (asPosix directory) entries w >>= iterMetadataPaths stack := by
  induction entries generalizing directory stack w with
  | nil =>
    rw [iterMetadataPaths]
    rfl
  | file name content rest ih =>
    rw [iterMetadataPaths, traverse]
    simp only [bind_assoc, ih, asPosix_snoc]
  | directory name entries rest ihEntries ihRest =>
    have hrest : iterMetadataPaths ((directory, rest) :: stack) = fun w =>
        traverse hashMetadataFilePath (asPosix directory) rest w >>= iterMetadataPaths stack :=
      funext (ihRest directory stack)
    rw [iterMetadataPaths, traverse]
    simp only [bind_assoc, ihEntries, hrest, asPosix_snoc]
  | special name rest ih =>
    rw [iterMetadataPaths, traverse]
    simp only [bind_assoc]
    rfl

/-! ## Fingerprints -/

/-- What both functions do with the refs, by either traversal. -/
def hashRefs (visit : Listing → Walk → Except Failure Walk) :
    Option Listing → Walk → Except Failure Walk
  | none => fun w => (encoded (ascii "refs:absent")).map w.update
  | some refs => fun w => w.countFile >>= fun w => checkListing refs.sorted >>= fun _ =>
    visit refs.sorted w

def run (visit : Listing → Walk → Except Failure Walk) (root : Metadata) :
    Walk → Except Failure Walk := fun w =>
  hashOptionalFd "HEAD" (unstamped root.head) w >>= fun w =>
    hashOptionalFd "index" (stamped root.index) w >>= fun w =>
      hashOptionalFd "packed-refs" (unstamped root.packedRefs) w >>= fun w =>
        hashOptionalFd "shallow" (unstamped root.shallow) w >>= hashRefs visit root.refs

theorem metadataFingerprintFd_eq (root : Metadata) :
    metadataFingerprintFd root =
      run (hashMetadataDirectoryFd (ascii "refs")) root .start >>= fun w => .ok w.input := by
  unfold metadataFingerprintFd run
  simp only [bind_assoc]
  cases root.refs with
  | none =>
    simp only [hashRefs]
    cases encoded (ascii "refs:absent") <;> rfl
  | some refs =>
    simp only [hashRefs, bind_assoc]
    rfl

theorem metadataFingerprintPath_eq (root : Metadata) :
    metadataFingerprintPath root =
      run (fun refs => iterMetadataPaths [([], refs)]) root .start >>= fun w => .ok w.input := by
  unfold metadataFingerprintPath run
  simp only [bind_assoc, hashOptionalPath_eq]
  cases root.refs with
  | none =>
    simp only [hashRefs]
    cases encoded (ascii "refs:absent") <;> rfl
  | some refs =>
    simp only [hashRefs, bind_assoc]
    rfl

namespace Metadata

def size (root : Metadata) : Nat :=
  (root.head.getD []).length + ((root.index.map Prod.snd).getD []).length +
    (root.packedRefs.getD []).length + (root.shallow.getD []).length + root.listing.size

def tops (root : Metadata) : Nat :=
  root.head.toList.length + root.index.toList.length + root.packedRefs.toList.length +
    root.shallow.toList.length + root.refs.toList.length

/-- Nothing but directories and regular files with encodable names, within the budgets. -/
def Hashable (root : Metadata) : Prop :=
  root.listing.Plain ∧ root.listing.Encodable [] ∧ root.size ≤ maxRefIndexBytes ∧
    root.tops + root.listing.directories ≤ maxMetadataFiles ∧ root.listing.count ≤ maxMetadataFiles

end Metadata

def refsAmount (k : Nat) : Option Listing → Walk
  | none => ⟨0, 0, 0, mark (.absent .refs)⟩
  | some refs => Walk.add ⟨0, 1, 0, []⟩ (amount k [] refs.sorted)

def total (k : Nat) (root : Metadata) : Walk :=
  (optionalAmount "HEAD" (unstamped root.head)).add
    ((optionalAmount "index" (stamped root.index)).add
      ((optionalAmount "packed-refs" (unstamped root.packedRefs)).add
        ((optionalAmount "shallow" (unstamped root.shallow)).add (refsAmount k root.refs))))

theorem adds_hashRefs {k : Nat} {visit : Listing → Walk → Except Failure Walk}
    (hvisit : ∀ entries : Listing, Adds (visit entries) (entries.Plain ∧ entries.Encodable [])
      (amount k [] entries)) (refs : Option Listing) :
    Adds (hashRefs visit refs) ((refs.getD .nil).sorted.Plain ∧
      (refs.getD .nil).sorted.Encodable []) (refsAmount k refs) := by
  cases refs with
  | none =>
    have habsent : (encode (ascii "refs:absent")).isSome := by decide
    refine (adds_update (ascii "refs:absent")).of_iff ?_
    simp [habsent, Listing.sorted, Listing.Plain, Listing.Encodable, Listing.files]
  | some refs =>
    have hlength : refs.sorted.names.length ≤ (amount k [] refs.sorted).entries :=
      refs.sorted.length_names_le_count
    have hwalk := adds_countFile.bind
      (adds_checkListing refs.sorted (hvisit refs.sorted) hlength)
    exact hwalk.of_iff (by simp)

theorem adds_run {k : Nat} {visit : Listing → Walk → Except Failure Walk}
    (hvisit : ∀ entries : Listing, Adds (visit entries) (entries.Plain ∧ entries.Encodable [])
      (amount k [] entries)) (root : Metadata) :
    Adds (run visit root) (root.listing.Plain ∧ root.listing.Encodable []) (total k root) := by
  have hhead := adds_hashOptionalFd "HEAD" (by decide) (unstamped root.head)
  have hindex := adds_hashOptionalFd "index" (by decide) (stamped root.index)
  have hpacked := adds_hashOptionalFd "packed-refs" (by decide)
    (unstamped root.packedRefs)
  have hshallow := adds_hashOptionalFd "shallow" (by decide) (unstamped root.shallow)
  have hall := hhead.bind (hindex.bind (hpacked.bind (hshallow.bind
    (adds_hashRefs hvisit root.refs))))
  exact hall.of_iff (by simp [Metadata.listing])

theorem optionalAmount_unstamped {top : Top} (file : Option (List UInt8)) :
    optionalAmount top.name (unstamped file) =
      ⟨(file.getD []).length, file.toList.length, 0, stream mark [topRecord top file]⟩ := by
  cases file <;> simp [optionalAmount, unstamped, topRecord, mark, stampBytes]

theorem optionalAmount_stamped (file : Option (Int × List UInt8)) :
    optionalAmount "index" (stamped file) =
      ⟨((file.map Prod.snd).getD []).length, file.toList.length, 0,
        stream mark [indexRecord file]⟩ := by
  cases file <;> simp [optionalAmount, stamped, indexRecord, mark, stampBytes, Top.name]

theorem total_eq (k : Nat) (root : Metadata) :
    total k root = ⟨root.size,
      root.tops + root.listing.directories + k * root.listing.regular, root.listing.count,
      stream mark root.records⟩ := by
  have hhead := @optionalAmount_unstamped .head root.head
  have hpacked := @optionalAmount_unstamped .packedRefs root.packedRefs
  have hshallow := @optionalAmount_unstamped .shallow root.shallow
  simp only [Top.name] at hhead hpacked hshallow
  unfold total
  rw [hhead, hpacked, hshallow, optionalAmount_stamped]
  unfold Metadata.size Metadata.tops Metadata.listing Metadata.records
  cases root.refs with
  | none =>
    simp [Walk.add, refsAmount, Listing.sorted, Listing.size, Listing.directories,
      Listing.regular, Listing.count]
    refine ⟨by omega, by omega, ?_⟩
    show _ = stream mark ([_] ++ ([_] ++ ([_] ++ ([_] ++ [_]))))
    simp only [stream_append, stream_cons, stream_nil, List.append_nil]
  | some refs =>
    simp [Walk.add, refsAmount, amount]
    refine ⟨by omega, by omega, ?_⟩
    show _ = stream mark ([_] ++ ([_] ++ ([_] ++ ([_] ++ refRecords [] refs.sorted))))
    simp only [stream_append]

theorem run_eq_ok_iff {k : Nat} {visit : Listing → Walk → Except Failure Walk}
    (hvisit : ∀ entries : Listing, Adds (visit entries) (entries.Plain ∧ entries.Encodable [])
      (amount k [] entries)) (root : Metadata) (input : List UInt8) :
    (run visit root .start >>= fun w => .ok w.input) = .ok input ↔
      (root.listing.Plain ∧ root.listing.Encodable []) ∧ (total k root).Within ∧
        input = stream mark root.records := by
  have hstart : Walk.start.Within := by simp [Walk.Within, Walk.start]
  have hrun := fun w' => adds_run hvisit root .start w' hstart
  simp only [Effect.except_bind_eq_ok, hrun, Walk.start_add]
  have hinput : (total k root).input = stream mark root.records := by rw [total_eq]
  constructor
  · rintro ⟨w, ⟨hgood, hwithin, rfl⟩, hw⟩
    cases hw
    exact ⟨hgood, hwithin, hinput⟩
  · rintro ⟨hgood, hwithin, rfl⟩
    exact ⟨total k root, ⟨hgood, hwithin, rfl⟩, by rw [hinput]⟩

/-- `_metadata_fingerprint_path` hashes the records of every directory within the budgets. -/
theorem metadataFingerprintPath_eq_ok_iff {root : Metadata} {input : List UInt8} :
    metadataFingerprintPath root = .ok input ↔
      root.Hashable ∧ input = stream mark root.records := by
  have hvisit : ∀ entries : Listing, Adds (fun w => iterMetadataPaths [([], entries)] w)
      (entries.Plain ∧ entries.Encodable []) (amount 0 [] entries) := by
    intro entries
    have hwalk := adds_traverse adds_hashMetadataFilePath entries []
    intro w w' hw
    have hpaths : iterMetadataPaths [([], entries)] w =
        traverse hashMetadataFilePath (asPosix []) entries w := by
      rw [iterMetadataPaths_cons]
      cases traverse hashMetadataFilePath (asPosix []) entries w with
      | error e => rfl
      | ok w => simp [bind, Except.bind, iterMetadataPaths]
    simp only [hpaths]
    exact hwalk w w' hw
  rw [metadataFingerprintPath_eq, run_eq_ok_iff hvisit, total_eq]
  simp only [Walk.Within, Metadata.Hashable, Nat.zero_mul, Nat.add_zero, and_assoc]

/-- `_metadata_fingerprint_fd` also wants the regular files within the budget of files. -/
theorem metadataFingerprintFd_eq_ok_iff {root : Metadata} {input : List UInt8} :
    metadataFingerprintFd root = .ok input ↔
      root.Hashable ∧ root.tops + root.listing.count ≤ maxMetadataFiles ∧
        input = stream mark root.records := by
  have hposix : asPosix [] = ascii "refs" := by simp [asPosix]
  have hvisit : ∀ entries : Listing, Adds (hashMetadataDirectoryFd (ascii "refs") entries)
      (entries.Plain ∧ entries.Encodable []) (amount 1 [] entries) := by
    intro entries
    have hfile : ∀ shown content, Adds (hashMetadataFileFd shown none content)
        (encode shown).isSome ⟨content.length, 1, 0, bytesOf shown ++ [0] ++ content⟩ := by
      intro shown content
      simpa [stampBytes] using adds_hashMetadataFileFd shown none content
    have hwalk := adds_traverse hfile entries []
    rw [hposix] at hwalk
    exact hwalk
  rw [metadataFingerprintFd_eq, run_eq_ok_iff hvisit, total_eq]
  simp only [Walk.Within, Metadata.Hashable, Nat.one_mul]
  constructor
  · rintro ⟨⟨hplain, hencodable⟩, ⟨hbytes, hfiles, hentries⟩, rfl⟩
    have hcount := Listing.count_eq hplain
    exact ⟨⟨hplain, hencodable, hbytes, by omega, hentries⟩, by omega, rfl⟩
  · rintro ⟨⟨hplain, hencodable, hbytes, hfiles, hentries⟩, hall, rfl⟩
    have hcount := Listing.count_eq hplain
    exact ⟨⟨hplain, hencodable⟩, ⟨hbytes, by omega, hentries⟩, rfl⟩

end CodexBridge.GitMetadata
