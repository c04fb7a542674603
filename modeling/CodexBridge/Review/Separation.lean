import CodexBridge.Review.Fingerprint

/-! # Which states share a fingerprint

Two metadata directories with different files have one hash input just where a content runs on as
the records after it begin.
-/

namespace CodexBridge.GitMetadata

open JsonText Records

/-! ## Marks -/

def ended (path : List Name) : Text := (path.flatMap fun name => slash :: name.text) ++ [slash]

theorem ended_cons (name : Name) (path : List Name) :
    ended (name :: path) = slash :: (name.text ++ ended path) := by
  simp [ended]

theorem ended_eq (path : List Name) : ∃ later, ended path = slash :: later := by
  cases path with
  | nil => exact ⟨[], rfl⟩
  | cons name path => exact ⟨name.text ++ ended path, ended_cons name path⟩

theorem Name.ext {a b : Name} (h : a.text = b.text) : a = b := by
  cases a
  cases b
  cases h
  rfl

theorem Name.slash_not_mem (name : Name) : slash ∉ name.text :=
  fun h => (name.plain slash h).2 rfl

theorem ended_inj {p q : List Name} (h : ended p = ended q) : p = q := by
  induction p generalizing q with
  | nil =>
    cases q with
    | nil => rfl
    | cons name q =>
      have hlength := congrArg List.length h
      simp [ended] at hlength
  | cons name p ih =>
    cases q with
    | nil =>
      have hlength := congrArg List.length h
      simp [ended] at hlength
    | cons name' q =>
      rw [ended_cons, ended_cons, List.cons.injEq] at h
      obtain ⟨later, hlater⟩ := ended_eq p
      obtain ⟨later', hlater'⟩ := ended_eq q
      have hboth := h.2
      rw [hlater, hlater'] at hboth
      have hsplit := split_at_separator name.slash_not_mem name'.slash_not_mem hboth
      have hname : name = name' := Name.ext hsplit.1
      have hpath : p = q := ih (by rw [hlater, hlater', hsplit.2])
      rw [hname, hpath]

theorem asPosix_inj {p q : List Name} (h : asPosix p = asPosix q) : p = q := by
  have hflat := List.append_cancel_left h
  exact ended_inj (by rw [ended, ended, hflat])

theorem zero_not_mem_asPosix (path : List Name) : (0 : UInt8) ∉ bytesOf (asPosix path) := by
  have hplain : ∀ c ∈ asPosix path, c.val ≠ 0 := by
    intro c hc
    rcases List.mem_append.mp hc with hc | hc
    · have hletters : "refs".toList.all (fun d => decide ((ofChar d).val ≠ 0)) = true := by
        decide
      obtain ⟨d, hd, rfl⟩ := List.mem_map.mp hc
      exact of_decide_eq_true (List.all_eq_true.mp hletters d hd)
    · obtain ⟨name, _, hname⟩ := List.mem_flatMap.mp hc
      rcases List.mem_cons.mp hname with rfl | hname
      · decide
      · exact (name.plain c hname).1
  exact zero_not_mem_bytesOf hplain

theorem zero_not_mem_integer (mtime : Int) : (0 : UInt8) ∉ bytesOf (integer mtime) := by
  have hplain : ∀ c ∈ integer mtime, c.val ≠ 0 := by
    intro c hc
    have hdigit := mem_integer hc
    omega
  exact zero_not_mem_bytesOf hplain

theorem bytesOf_stampText (mtime : Int) :
    bytesOf (stampText mtime) = bytesOf (ascii "mtime_ns:") ++ bytesOf (integer mtime) ++ [0] := by
  have hall := isSome_encode_stampText mtime
  unfold stampText at *
  rw [bytesOf_append hall, bytesOf_append (isSome_encode_append.mp hall).1]
  rfl

namespace Marker

def Valid : Marker → Prop
  | absent _ => True
  | present top => top ≠ .index ∧ top ≠ .refs
  | stamped _ => True
  | ref path => path ≠ [] ∧ (encode (asPosix path)).isSome

def top : Marker → Top
  | absent top => top
  | present top => top
  | stamped _ => .index
  | ref _ => .refs

def separator : Marker → UInt8
  | absent _ => 0x3A
  | present _ => 0
  | stamped _ => 0
  | ref _ => 0x2F

end Marker

def IsSeparator (b : UInt8) : Prop := b = 0x3A ∨ b = 0 ∨ b = 0x2F

instance (b : UInt8) : Decidable (IsSeparator b) := inferInstanceAs (Decidable (_ ∨ _))

theorem not_isSeparator_of_mem_name (top : Top) :
    ∀ b ∈ bytesOf (ascii top.name), ¬ IsSeparator b := by
  cases top <;> decide +kernel

theorem Top.eq_of_name {s t : Top} (h : bytesOf (ascii s.name) = bytesOf (ascii t.name)) :
    s = t := by
  revert h
  cases s <;> cases t <;> decide

theorem Marker.isSeparator (k : Marker) : IsSeparator k.separator := by
  cases k with
  | absent top => exact Or.inl rfl
  | present top => exact Or.inr (Or.inl rfl)
  | stamped mtime => exact Or.inr (Or.inl rfl)
  | ref path => exact Or.inr (Or.inr rfl)

theorem mark_eq {k : Marker} (h : k.Valid) :
    ∃ later, mark k = bytesOf (ascii k.top.name) ++ k.separator :: later := by
  cases k with
  | absent top =>
    refine ⟨bytesOf (ascii "absent"), ?_⟩
    cases top <;> decide
  | present top => exact ⟨[], rfl⟩
  | stamped mtime =>
    refine ⟨bytesOf (stampText mtime), ?_⟩
    simp [mark, Marker.top, Marker.separator, Top.name]
  | ref path =>
    cases path with
    | nil => exact absurd rfl h.1
    | cons name path =>
      have htail : asPosix (name :: path) = ascii "refs" ++
          ([slash] ++ (name.text ++ path.flatMap fun name => slash :: name.text)) := by
        simp [asPosix]
      have hall := h.2
      rw [htail] at hall
      have hslash := bytesOf_append (isSome_encode_append.mp hall).2
      refine ⟨bytesOf (name.text ++ path.flatMap fun name => slash :: name.text) ++ [0], ?_⟩
      rw [mark, htail, bytesOf_append hall, hslash]
      simp only [Marker.top, Marker.separator, Top.name, List.append_assoc]
      rfl

theorem prefixFree_mark : PrefixFree mark Marker.Valid where
  ne_nil := by
    intro k hk
    obtain ⟨later, hlater⟩ := mark_eq hk
    simp [hlater]
  key_eq := by
    intro k l x y hk hl h
    obtain ⟨later, hlater⟩ := mark_eq hk
    obtain ⟨later', hlater'⟩ := mark_eq hl
    have hnames := h
    rw [hlater, hlater'] at hnames
    simp only [List.append_assoc, List.cons_append] at hnames
    obtain ⟨hname, hseparator, _⟩ := split_at_first (not_isSeparator_of_mem_name k.top)
      (not_isSeparator_of_mem_name l.top) k.isSeparator l.isSeparator hnames
    have htop : k.top = l.top := Top.eq_of_name hname
    cases k with
    | absent top =>
      cases l with
      | absent top' => exact congrArg Marker.absent htop
      | present top' => simp [Marker.separator] at hseparator
      | stamped mtime' => simp [Marker.separator] at hseparator
      | ref path' => simp [Marker.separator] at hseparator
    | present top =>
      cases l with
      | absent top' => simp [Marker.separator] at hseparator
      | present top' => exact congrArg Marker.present htop
      | stamped mtime' => exact absurd htop hk.1
      | ref path' => simp [Marker.separator] at hseparator
    | stamped mtime =>
      cases l with
      | absent top' => simp [Marker.separator] at hseparator
      | present top' => exact absurd htop.symm hl.1
      | stamped mtime' =>
        simp only [mark, bytesOf_stampText, List.append_assoc] at h
        have hdigits := List.append_cancel_left (List.append_cancel_left
          (List.append_cancel_left h))
        obtain ⟨hbytes, _⟩ := split_at_separator (zero_not_mem_integer mtime)
          (zero_not_mem_integer mtime') hdigits
        have hsome : ∀ i : Int, (encode (integer i)).isSome := fun i =>
          (isSome_encode_append.mp (isSome_encode_append.mp (isSome_encode_stampText i)).1).2
        rw [integer_inj (bytesOf_inj (hsome mtime) (hsome mtime') hbytes)]
      | ref path' => simp [Marker.separator] at hseparator
    | ref path =>
      cases l with
      | absent top' => simp [Marker.separator] at hseparator
      | present top' => simp [Marker.separator] at hseparator
      | stamped mtime' => simp [Marker.separator] at hseparator
      | ref path' =>
        simp only [mark, List.append_assoc] at h
        obtain ⟨hbytes, _⟩ := split_at_separator (zero_not_mem_asPosix path)
          (zero_not_mem_asPosix path') h
        rw [asPosix_inj (bytesOf_inj hk.2 hl.2 hbytes)]

/-! ## Files -/

namespace Listing

theorem mem_files {entries : Listing} {path : List Name} {content : List UInt8}
    (h : (path, content) ∈ entries.files) :
    ∃ name rest, path = name :: rest ∧ name ∈ entries.names := by
  induction entries with
  | nil => simp [files] at h
  | file name body rest ih =>
    simp only [files, List.mem_cons, Prod.mk.injEq] at h
    rcases h with ⟨rfl, rfl⟩ | h
    · exact ⟨name, [], rfl, List.mem_cons_self⟩
    · obtain ⟨first, tail, hpath, hmem⟩ := ih h
      exact ⟨first, tail, hpath, List.mem_cons_of_mem name hmem⟩
  | directory name entries rest _ ih =>
    simp only [files, List.mem_append, List.mem_map, Prod.mk.injEq] at h
    rcases h with ⟨entry, hentry, rfl, rfl⟩ | h
    · exact ⟨name, entry.1, rfl, List.mem_cons_self⟩
    · obtain ⟨first, tail, hpath, hmem⟩ := ih h
      exact ⟨first, tail, hpath, List.mem_cons_of_mem name hmem⟩
  | special name rest ih =>
    obtain ⟨first, tail, hpath, hmem⟩ := ih h
    exact ⟨first, tail, hpath, List.mem_cons_of_mem name hmem⟩

theorem not_mem_files {entries : Listing} {name : Name} {rest : List Name} {content : List UInt8}
    (h : name ∉ entries.names) : (name :: rest, content) ∉ entries.files := by
  intro hmem
  obtain ⟨first, tail, hpath, hfirst⟩ := mem_files hmem
  cases hpath
  exact h hfirst

theorem content_unique {entries : Listing} (h : entries.Distinct) {path : List Name}
    {content content' : List UInt8} (hc : (path, content) ∈ entries.files)
    (hc' : (path, content') ∈ entries.files) : content = content' := by
  induction entries generalizing path with
  | nil => simp [files] at hc
  | file name body rest ih =>
    have hnone : ∀ bytes, ([name], bytes) ∉ rest.files := fun bytes => not_mem_files h.1
    simp only [files, List.mem_cons, Prod.mk.injEq] at hc hc'
    rcases hc with ⟨rfl, rfl⟩ | hc
    · rcases hc' with ⟨_, rfl⟩ | hc'
      · rfl
      · exact absurd hc' (hnone content')
    · rcases hc' with ⟨rfl, rfl⟩ | hc'
      · exact absurd hc (hnone content)
      · exact ih h.2 hc hc'
  | directory name entries rest ihEntries ihRest =>
    simp only [files, List.mem_append, List.mem_map, Prod.mk.injEq] at hc hc'
    rcases hc with ⟨entry, hentry, rfl, rfl⟩ | hc
    · rcases hc' with ⟨entry', hentry', hpath, rfl⟩ | hc'
      · have htail : entry'.1 = entry.1 := (List.cons.inj hpath).2
        exact ihEntries h.2.1 hentry (htail ▸ hentry')
      · exact absurd hc' (not_mem_files h.1)
    · rcases hc' with ⟨entry', hentry', rfl, rfl⟩ | hc'
      · exact absurd hc (not_mem_files h.1)
      · exact ihRest h.2.2 hc hc'
  | special name rest ih => exact ih h.2 hc hc'

/-- Placing an entry adds its files wherever it comes to stand. -/
theorem mem_files_place {name : Name} {entry : Listing → Listing}
    (own : List Name × List UInt8 → Prop)
    (hentry : ∀ rest x, x ∈ (entry rest).files ↔ own x ∨ x ∈ rest.files) (entries : Listing)
    (x : List Name × List UInt8) :
    x ∈ (entries.place name entry).files ↔ own x ∨ x ∈ entries.files := by
  induction entries with
  | nil => exact hentry nil x
  | file n body rest ih =>
    unfold place
    split
    · exact hentry _ x
    · simp only [files, List.mem_cons, ih]
      tauto
  | directory n inner rest _ ih =>
    unfold place
    split
    · exact hentry _ x
    · simp only [files, List.mem_append, ih]
      tauto
  | special n rest ih =>
    unfold place
    split
    · exact hentry _ x
    · exact ih

theorem mem_files_sorted (entries : Listing) (x : List Name × List UInt8) :
    x ∈ entries.sorted.files ↔ x ∈ entries.files := by
  induction entries generalizing x with
  | nil => rfl
  | file name body rest ih =>
    rw [sorted, mem_files_place (· = ([name], body))
      (fun rest x => by simp [files])]
    simp [files, ih]
  | directory name entries rest ihEntries ihRest =>
    rw [sorted, mem_files_place
      (fun x => ∃ inner ∈ entries.files, (name :: inner.1, inner.2) = x)
      (fun rest x => by simp [files, ihEntries])]
    simp [files, ihRest]
  | special name rest ih =>
    rw [sorted, mem_files_place (fun _ => False) (fun rest x => by simp [files])]
    simp [files, ih]

end Listing

def SameFiles (a b : Metadata) : Prop :=
  a.head = b.head ∧ a.index.map Prod.snd = b.index.map Prod.snd ∧
    a.packedRefs = b.packedRefs ∧ a.shallow = b.shallow ∧
      ∀ path content, (path, content) ∈ (a.refs.getD .nil).files ↔
        (path, content) ∈ (b.refs.getD .nil).files

theorem topRecord_inj {top : Top} {f g : Option (List UInt8)}
    (h : topRecord top f = topRecord top g) : f = g := by
  cases f <;> cases g <;> simp_all [topRecord]

theorem indexRecord_inj {f g : Option (Int × List UInt8)} (h : indexRecord f = indexRecord g) :
    f = g := by
  cases f <;> cases g <;> simp_all [indexRecord, Prod.ext_iff]

theorem files_eq_of_refRecords_eq {entries entries' : Listing}
    (h : refRecords [] entries = refRecords [] entries') : entries.files = entries'.files := by
  have hinj : Function.Injective fun entry : List Name × List UInt8 =>
      ((.ref ([] ++ entry.1), entry.2) : Record) := by
    intro x y hxy
    simp only [List.nil_append, Prod.mk.injEq, Marker.ref.injEq] at hxy
    exact Prod.ext hxy.1 hxy.2
  exact List.map_injective_iff.mpr hinj h

theorem sameFiles_of_records_eq {a b : Metadata} (h : a.records = b.records) : SameFiles a b := by
  unfold Metadata.records at h
  simp only [List.cons_append, List.nil_append, List.cons.injEq] at h
  obtain ⟨hhead, hindex, hpacked, hshallow, hrefs⟩ := h
  refine ⟨topRecord_inj hhead, by rw [indexRecord_inj hindex], topRecord_inj hpacked,
    topRecord_inj hshallow, ?_⟩
  intro path content
  cases ha : a.refs with
  | none =>
    cases hb : b.refs with
    | none => rfl
    | some refs' =>
      rw [ha, hb] at hrefs
      have hmem : (Marker.absent .refs, []) ∈ refRecords [] refs'.sorted := by
        simp only at hrefs
        rw [← hrefs]
        exact List.mem_singleton_self _
      simp [refRecords] at hmem
  | some refs =>
    cases hb : b.refs with
    | none =>
      rw [ha, hb] at hrefs
      have hmem : (Marker.absent .refs, []) ∈ refRecords [] refs.sorted := by
        simp only at hrefs
        rw [hrefs]
        exact List.mem_singleton_self _
      simp [refRecords] at hmem
    | some refs' =>
      rw [ha, hb] at hrefs
      have hfiles := files_eq_of_refRecords_eq hrefs
      simp only [Option.getD_some]
      rw [← refs.mem_files_sorted, hfiles, refs'.mem_files_sorted]

/-- What a record says of the directory. -/
def Metadata.Has (root : Metadata) : Marker → List UInt8 → Prop
  | .absent _, content => content = []
  | .present .head, content => root.head = some content
  | .present .packedRefs, content => root.packedRefs = some content
  | .present .shallow, content => root.shallow = some content
  | .present _, _ => False
  | .stamped mtime, content => root.index = some (mtime, content)
  | .ref path, content => (path, content) ∈ (root.refs.getD .nil).files

theorem Metadata.has_of_mem_records {root : Metadata} {k : Marker} {content : List UInt8}
    (h : (k, content) ∈ root.records) : root.Has k content := by
  simp only [records, List.mem_append, List.mem_cons, List.not_mem_nil, or_false] at h
  rcases h with (h | h | h | h) | h
  · cases hfile : root.head <;> rw [hfile] at h <;> cases h
    · rfl
    · exact hfile
  · cases hfile : root.index <;> rw [hfile] at h <;> cases h
    · rfl
    · exact hfile
  · cases hfile : root.packedRefs <;> rw [hfile] at h <;> cases h
    · rfl
    · exact hfile
  · cases hfile : root.shallow <;> rw [hfile] at h <;> cases h
    · rfl
    · exact hfile
  · cases hrefs : root.refs with
    | none =>
      rw [hrefs] at h
      cases List.mem_singleton.mp h
      rfl
    | some refs =>
      rw [hrefs] at h
      obtain ⟨entry, hentry, heq⟩ := List.mem_map.mp h
      cases heq
      rw [refs.mem_files_sorted] at hentry
      simpa [Has, hrefs] using hentry

theorem content_eq_of_sameFiles {a b : Metadata} (h : SameFiles a b) {k : Marker}
    {content content' : List UInt8} (ha : (k, content) ∈ a.records)
    (hb : (k, content') ∈ b.records) : content = content' := by
  have hhas := Metadata.has_of_mem_records ha
  have hhas' := Metadata.has_of_mem_records hb
  obtain ⟨hhead, hindex, hpacked, hshallow, hrefs⟩ := h
  cases k with
  | absent top => exact hhas.trans hhas'.symm
  | present top =>
    cases top with
    | head => exact Option.some.inj (hhas.symm.trans (hhead.trans hhas'))
    | index => exact hhas.elim
    | packedRefs => exact Option.some.inj (hhas.symm.trans (hpacked.trans hhas'))
    | shallow => exact Option.some.inj (hhas.symm.trans (hshallow.trans hhas'))
    | refs => exact hhas.elim
  | stamped mtime =>
    have ha' : a.index = some (mtime, content) := hhas
    have hb' : b.index = some (mtime, content') := hhas'
    rw [ha', hb'] at hindex
    exact Option.some.inj hindex
  | ref path =>
    have hmem : (path, content) ∈ (b.refs.getD .nil).files := (hrefs path content).mp hhas
    have hdistinct : (b.refs.getD .nil).Distinct := by
      cases hb' : b.refs with
      | none => trivial
      | some refs => exact b.distinct refs hb'
    exact Listing.content_unique hdistinct hmem hhas'

theorem not_sameFiles_of_spills {a b : Metadata} (h : Spills mark a.records b.records) :
    ¬ SameFiles a b := by
  intro hsame
  obtain ⟨common, k, content, extra, later, later', hextra, ha, hb, _⟩ := h
  have hcontent : content = content ++ extra :=
    content_eq_of_sameFiles (k := k) hsame (by simp [ha]) (by simp [hb])
  exact hextra (List.self_eq_append_right.mp hcontent)

def Agrees (root : Metadata) : Prop :=
  ∀ input input', metadataFingerprintFd root = .ok input →
    metadataFingerprintPath root = .ok input' → input = input'

def Matched (root : Metadata) : Prop :=
  (∃ input, metadataFingerprintFd root = .ok input) ↔
    ∃ input, metadataFingerprintPath root = .ok input

def HashInput (root : Metadata) (input : List UInt8) : Prop :=
  metadataFingerprintFd root = .ok input ∨ metadataFingerprintPath root = .ok input

def Separates (a b : Metadata) : Prop :=
  ∀ input, HashInput a input → HashInput b input → SameFiles a b

/-- The directory is within the budgets, but only as long as the regular files of the refs are not
counted as files beside the four files, the refs and their directories. -/
def Overcounted (root : Metadata) : Prop :=
  root.Hashable ∧ maxMetadataFiles < root.tops + root.listing.count

/-- A file's content in one directory goes on in the other one by bytes that read as the marks and
contents of the first directory's later files. -/
def Overlaps (a b : Metadata) : Prop :=
  a.Hashable ∧ b.Hashable ∧ (Spills mark a.records b.records ∨ Spills mark b.records a.records)

theorem hashInput_iff {root : Metadata} {input : List UInt8} :
    HashInput root input ↔ root.Hashable ∧ input = stream mark root.records := by
  unfold HashInput
  rw [metadataFingerprintFd_eq_ok_iff, metadataFingerprintPath_eq_ok_iff]
  tauto

theorem valid_of_mem_records {root : Metadata} (h : root.Hashable) :
    ∀ r ∈ root.records, r.1.Valid := by
  have hencodable := h.2.1
  intro r hr
  simp only [Metadata.records, List.mem_append, List.mem_cons, List.not_mem_nil, or_false] at hr
  rcases hr with (rfl | rfl | rfl | rfl) | hr
  · cases root.head <;> simp [topRecord, Marker.Valid]
  · cases root.index <;> simp [indexRecord, Marker.Valid]
  · cases root.packedRefs <;> simp [topRecord, Marker.Valid]
  · cases root.shallow <;> simp [topRecord, Marker.Valid]
  · cases hrefs : root.refs with
    | none =>
      rw [hrefs] at hr
      cases List.mem_singleton.mp hr
      trivial
    | some refs =>
      rw [hrefs] at hr
      obtain ⟨entry, hentry, rfl⟩ := List.mem_map.mp hr
      have hlisting : root.listing = refs.sorted := by simp [Metadata.listing, hrefs]
      obtain ⟨name, rest, hpath, _⟩ := Listing.mem_files hentry
      have hne : [] ++ entry.1 ≠ [] := by simp [hpath]
      exact ⟨hne, hencodable entry (hlisting ▸ hentry)⟩

theorem agrees (root : Metadata) : Agrees root := by
  intro input input' hfd hpath
  have hinput := (metadataFingerprintFd_eq_ok_iff.mp hfd).2.2
  have hinput' := (metadataFingerprintPath_eq_ok_iff.mp hpath).2
  rw [hinput, hinput']

theorem matched_iff (root : Metadata) : Matched root ↔ ¬ Overcounted root := by
  unfold Matched Overcounted
  simp only [metadataFingerprintFd_eq_ok_iff, metadataFingerprintPath_eq_ok_iff]
  constructor
  · rintro hboth ⟨hhashable, hover⟩
    obtain ⟨_, _, hcount, _⟩ := hboth.mpr ⟨_, hhashable, rfl⟩
    omega
  intro hunder
  constructor
  · rintro ⟨input, hhashable, _, hinput⟩
    exact ⟨input, hhashable, hinput⟩
  rintro ⟨input, hhashable, hinput⟩
  have hcount : root.tops + root.listing.count ≤ maxMetadataFiles := by
    by_contra hmore
    exact hunder ⟨hhashable, by omega⟩
  exact ⟨input, hhashable, hcount, hinput⟩

theorem separates_iff (a b : Metadata) : Separates a b ↔ ¬ Overlaps a b := by
  unfold Separates Overlaps
  simp only [hashInput_iff]
  constructor
  · rintro hseparates ⟨ha, hb, hspills⟩
    rcases hspills with hspills | hspills
    · have hsame := hseparates _ ⟨ha, rfl⟩ ⟨hb, hspills.stream_eq⟩
      exact not_sameFiles_of_spills hspills hsame
    have hsame := hseparates _ ⟨ha, rfl⟩ ⟨hb, hspills.stream_eq.symm⟩
    obtain ⟨hhead, hindex, hpacked, hshallow, hrefs⟩ := hsame
    exact not_sameFiles_of_spills hspills ⟨hhead.symm, hindex.symm, hpacked.symm,
      hshallow.symm, fun path content => (hrefs path content).symm⟩
  · rintro hapart input ⟨ha, rfl⟩ ⟨hb, hinput⟩
    rcases eq_or_spills prefixFree_mark (valid_of_mem_records ha) (valid_of_mem_records hb)
      hinput with heq | hspills
    · exact sameFiles_of_records_eq heq
    · exact absurd ⟨ha, hb, hspills⟩ hapart

/-- The two fingerprints always agree; both succeed together unless the count of the regular files
alone exceeds a budget, and they tell two directories apart unless a content runs on as the later
records of the other one. -/
theorem fingerprints_exact_iff (a b : Metadata) :
    Agrees a ∧ (Matched a ↔ ¬ Overcounted a) ∧ (Separates a b ↔ ¬ Overlaps a b) :=
  ⟨agrees a, matched_iff a, separates_iff a b⟩

def branch (letter : Char) (h : (ofChar letter).val ≠ 0x00 ∧ (ofChar letter).val ≠ 0x2F) : Name :=
  ⟨[ofChar letter], fun _ hc => List.mem_singleton.mp hc ▸ h⟩

def onlyRefs (entries : Listing) (h : entries.Distinct) : Metadata :=
  ⟨none, none, none, none, some entries, fun _ he => Option.some.inj he ▸ h⟩

def oneRef : Metadata :=
  onlyRefs (.file (branch 'a' (by decide)) (bytesOf (ascii "refs/b") ++ [0]) .nil)
    ⟨by simp [Listing.names], trivial⟩

def twoRefs : Metadata :=
  onlyRefs (.file (branch 'a' (by decide)) [] (.file (branch 'b' (by decide)) [] .nil))
    ⟨by decide, by simp [Listing.names], trivial⟩

theorem fingerprints_not_exact : ¬ ∀ a b : Metadata, Agrees a ∧ Matched a ∧ Separates a b := by
  intro h
  have hspills : Spills mark twoRefs.records oneRef.records := by
    refine ⟨twoRefs.records.take 4, .ref [branch 'a' (by decide)], [],
      bytesOf (ascii "refs/b") ++ [0], [(.ref [branch 'b' (by decide)], [])], [], ?_, ?_, ?_, ?_⟩
    · decide
    · decide
    · decide
    · decide
  have hhashable : oneRef.Hashable := by
    refine ⟨trivial, ?_, ?_, ?_, ?_⟩
    · unfold Listing.Encodable
      decide
    · decide
    · decide
    · decide
  have hhashable' : twoRefs.Hashable := by
    refine ⟨trivial, ?_, ?_, ?_, ?_⟩
    · unfold Listing.Encodable
      decide
    · decide
    · decide
    · decide
  exact (separates_iff oneRef twoRefs).mp (h oneRef twoRefs).2.2
    ⟨hhashable, hhashable', Or.inr hspills⟩

end CodexBridge.GitMetadata
