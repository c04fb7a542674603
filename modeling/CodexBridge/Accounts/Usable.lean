import CodexBridge.Accounts.Files
import Mathlib.Data.List.DropRight
import Mathlib.Data.List.Nodup

/-! # Saved profiles keep their sign-ins

Each call but a removal leaves a registry that is read back and a sign-in for every profile in it,
however its accesses to the disk end.
-/

namespace CodexBridge.Accounts.Files

open Effect

/-! ## Texts -/

theorem dropWhile_rdropWhile {α : Type} (p : α → Bool) {l : List α} (h : l.dropWhile p = l) :
    (l.rdropWhile p).dropWhile p = l.rdropWhile p := by
  cases hr : l.rdropWhile p with
  | nil => rfl
  | cons x rest =>
    obtain ⟨tail, htail⟩ := List.rdropWhile_prefix p l
    rw [hr] at htail
    rw [← htail, List.cons_append] at h
    cases hx : p x with
    | false => rw [List.dropWhile_cons_of_neg (by simp [hx])]
    | true =>
      rw [List.dropWhile_cons_of_pos hx] at h
      have hlength := (List.dropWhile_sublist (l := rest ++ tail) p).length_le
      rw [h, List.length_cons] at hlength
      omega

theorem strip_strip (s : String) : PyText.strip (PyText.strip s) = PyText.strip s := by
  have hstrip : ∀ s : String, PyText.strip s =
      String.ofList ((s.toList.dropWhile PyText.isSpace).rdropWhile PyText.isSpace) :=
    fun _ => rfl
  rw [hstrip (PyText.strip s), hstrip s, String.toList_ofList,
    dropWhile_rdropWhile _ (List.dropWhile_idempotent _ _), List.rdropWhile_idempotent]

theorem label?_label {value label : String} (h : label? value = some label) :
    label? label = some label := by
  unfold label? at h ⊢
  dsimp only at h ⊢
  obtain ⟨hchecks, h⟩ := Option.ite_none_right_eq_some.mp h
  cases h
  rw [strip_strip, if_pos hchecks]

section

variable {Raw : Type}

/-- `str.lower` leaves the names of the plans alone. -/
def Reader.Lawful (reader : Reader Raw) : Prop := ∀ plan ∈ safePlanTypes, reader.lower plan = plan

structure Profile.Valid (p : Profile) : Prop where
  id : isProfileId p.id = true
  accountId : isAccountId p.accountId = true
  label : label? p.label = some p.label
  plan : ∀ plan ∈ p.plan, plan ∈ safePlanTypes

structure Registry.Valid (r : Registry) : Prop where
  profiles : ∀ p ∈ r.profiles, p.Valid
  count : r.profiles.length ≤ maxProfiles
  ids : (r.profiles.map (·.id)).Nodup
  accountIds : (r.profiles.map (·.accountId)).Nodup
  active : ∀ id ∈ r.activeProfileId, id ∈ r.profiles.map (·.id)

variable {reader : Reader Raw}

theorem normalizePlan_safe {value : Json} {plan : String}
    (h : normalizePlan reader value = some plan) : plan ∈ safePlanTypes := by
  unfold normalizePlan at h
  split at h
  · obtain ⟨hsafe, h⟩ := Option.ite_none_right_eq_some.mp h
    cases h
    exact hsafe
  · cases h

theorem strip_plan : ∀ plan ∈ safePlanTypes, PyText.strip plan = plan := by decide +kernel

theorem normalizePlan_of_safe (hreader : reader.Lawful) {plan : String}
    (h : plan ∈ safePlanTypes) : normalizePlan reader (.str plan) = some plan := by
  show (if reader.lower (PyText.strip plan) ∈ safePlanTypes then
    some (reader.lower (PyText.strip plan)) else none) = some plan
  rw [strip_plan plan h, hreader plan h, if_pos h]

theorem Profile.Valid.read (hreader : reader.Lawful) {p : Profile} (h : p.Valid) :
    readProfile reader p.json = some p := by
  obtain ⟨id, label, accountId, plan⟩ := p
  have hlabel : label? label = some label := h.label
  have hid : isProfileId id = true := h.id
  have haccount : isAccountId accountId = true := h.accountId
  cases plan with
  | none =>
    simp [Profile.json, readProfile, get, Json.field?, Json.hasExactly, hid, haccount, hlabel,
      Json.str?]
  | some plan =>
    have hplan := normalizePlan_of_safe hreader (h.plan plan rfl)
    simp [Profile.json, readProfile, get, Json.field?, Json.hasExactly, hid, haccount, hlabel,
      hplan, Json.str?]

theorem escapedLength_le (c : Char) : escapedLength c ≤ 12 := by
  unfold escapedLength
  split
  · omega
  split
  · omega
  split
  · omega
  · omega

theorem sum_map_le {α : Type} {f : α → Nat} {bound : Nat} {xs : List α}
    (h : ∀ x ∈ xs, f x ≤ bound) : (xs.map f).sum ≤ bound * xs.length := by
  induction xs with
  | nil => exact Nat.zero_le _
  | cons x rest ih =>
    have hx := h x List.mem_cons_self
    have hrest := ih fun y hy => h y (List.mem_cons_of_mem x hy)
    rw [List.map_cons, List.sum_cons, List.length_cons, Nat.mul_succ]
    omega

theorem quotedLength_le {s : String} {n : Nat} (h : s.length ≤ n) :
    quotedLength s ≤ 2 + 12 * n := by
  have hsum : (s.toList.map escapedLength).sum ≤ 12 * s.toList.length :=
    sum_map_le fun c _ => escapedLength_le c
  rw [String.length_toList] at hsum
  unfold quotedLength
  omega

theorem escapedLength_hex {c : Char} (h : (c.isDigit || ('a' ≤ c && c ≤ 'f')) = true) :
    escapedLength c ≤ 1 := by
  have hcases : c.isDigit = true ∨ ('a' ≤ c ∧ c ≤ 'f') := by simpa using h
  have hrange : 48 ≤ c.toNat ∧ c.toNat ≤ 57 ∨ 97 ≤ c.toNat ∧ c.toNat ≤ 102 := by
    cases hcases with
    | inl hdigit =>
      left
      unfold Char.isDigit at hdigit
      simp only [Bool.and_eq_true, decide_eq_true_eq] at hdigit
      exact ⟨UInt32.le_iff_toNat_le.mp hdigit.1, UInt32.le_iff_toNat_le.mp hdigit.2⟩
    | inr hletter => exact .inr hletter
  have hplain : c ∉ ['"', '\\', '\n', '\r', '\t', Char.ofNat 8, Char.ofNat 12] := by
    intro hmem
    simp only [List.mem_cons, List.not_mem_nil, or_false] at hmem
    rcases hmem with rfl | rfl | rfl | rfl | rfl | rfl | rfl <;> exact absurd hrange (by decide)
  unfold escapedLength
  rw [if_neg hplain, if_pos (by omega)]

theorem quotedLength_profileId {id : String} (h : isProfileId id = true) :
    quotedLength id ≤ 34 := by
  unfold isProfileId PyText.isLowerHex at h
  simp only [Bool.and_eq_true, decide_eq_true_eq] at h
  obtain ⟨hlength, hall⟩ := h
  have hsum : (id.toList.map escapedLength).sum ≤ 1 * id.toList.length :=
    sum_map_le fun c hc => escapedLength_hex (List.all_eq_true.mp hall c hc)
  rw [String.length_toList, hlength] at hsum
  unfold quotedLength
  omega

theorem quotedLength_plan : ∀ plan ∈ safePlanTypes, quotedLength plan ≤ 33 := by decide +kernel

theorem isAccountId_length {id : String} (h : isAccountId id = true) : id.length ≤ 256 := by
  unfold isAccountId at h
  simp only [Bool.and_eq_true, decide_eq_true_eq] at h
  exact h.1.2

theorem label?_length {value label : String} (h : label? value = some label) :
    label.length ≤ 60 := by
  unfold label? at h
  dsimp only at h
  obtain ⟨hchecks, h⟩ := Option.ite_none_right_eq_some.mp h
  cases h
  exact hchecks.2.1

theorem Profile.Valid.textLength {p : Profile} (h : p.Valid) : p.textLength ≤ 3901 := by
  have haccount := quotedLength_le (isAccountId_length h.accountId)
  have hid := quotedLength_profileId h.id
  have hlabel := quotedLength_le (label?_length h.label)
  have hplan : optionalLength p.plan ≤ 33 := by
    cases hp : p.plan with
    | none => decide
    | some plan => exact quotedLength_plan plan (h.plan plan hp)
  have hkeys : quotedLength "account_id" + quotedLength "id" + quotedLength "label" +
      quotedLength "plan" = 29 := by decide +kernel
  unfold Profile.textLength
  omega

theorem Registry.Valid.textLength {r : Registry} (h : r.Valid) :
    r.textLength ≠ 0 ∧ r.textLength ≤ maxRegistryBytes := by
  have hprofiles : (r.profiles.map Profile.textLength).sum ≤ 3901 * r.profiles.length :=
    sum_map_le fun p hp => (h.profiles p hp).textLength
  have hcount : r.profiles.length ≤ 16 := h.count
  have hactive : optionalLength r.activeProfileId ≤ 34 := by
    cases ha : r.activeProfileId with
    | none => decide
    | some id =>
      obtain ⟨p, hp, rfl⟩ := List.mem_map.mp (h.active id ha)
      exact quotedLength_profileId (h.profiles p hp).id
  have hkeys : quotedLength "active_profile_id" + quotedLength "profiles" +
      quotedLength "version" = 38 := by decide +kernel
  have hlimit : maxRegistryBytes = 65536 := rfl
  unfold Registry.textLength
  omega

theorem Registry.Valid.read (hreader : reader.Lawful) {r : Registry} (h : r.Valid) :
    readRegistry reader r.file = some r := by
  obtain ⟨active, profiles⟩ := r
  obtain ⟨hnonzero, hsize⟩ := h.textLength
  have hlength : ¬ ((Registry.file ⟨active, profiles⟩).length = 0 ∨
      maxRegistryBytes < (Registry.file ⟨active, profiles⟩).length) := by
    show ¬ (Registry.textLength ⟨active, profiles⟩ = 0 ∨
      maxRegistryBytes < Registry.textLength ⟨active, profiles⟩)
    omega
  have hitems : (profiles.map Profile.json).mapM (readProfile reader) = some profiles :=
    Json.mapM_map_some fun p hp => (h.profiles p hp).read hreader
  have hactive : readActive ((active.map Json.str).getD .null) = some active := by
    cases active with
    | none => rfl
    | some id =>
      obtain ⟨p, hp, heq⟩ := List.mem_map.mp (h.active id rfl)
      have hid : isProfileId id = true := by
        rw [← heq]
        exact (h.profiles p hp).id
      exact if_pos hid
  let fields := [("active_profile_id", (active.map Json.str).getD .null),
    ("profiles", .arr (profiles.map Profile.json)), ("version", .int 1)]
  have hprofiles : get fields "profiles" = .arr (profiles.map Profile.json) := rfl
  have hchecks : Json.hasExactly fields ["version", "active_profile_id", "profiles"] = true ∧
      isVersionOne (get fields "version") = true ∧
        (profiles.map Profile.json).length ≤ maxProfiles := by
    refine ⟨rfl, rfl, ?_⟩
    rw [List.length_map]
    exact h.count
  unfold readRegistry
  rw [if_neg hlength]
  simp only [show (Registry.file ⟨active, profiles⟩).value = .obj fields from rfl, hprofiles,
    show readActive (get fields "active_profile_id") = some active from hactive]
  rw [if_pos hchecks, hitems]
  exact if_pos ⟨h.ids, h.accountIds, h.active⟩

end

section

variable {Raw : Type} (reader : Reader Raw)

structure Readable (raw : Raw) (accountId : String) : Prop where
  nonempty : reader.size raw ≠ 0
  size : reader.size raw ≤ maxCredentialBytes
  account : credentialAccountId reader raw = some accountId

def Stored (profiles : List Profile) (s : State Raw) : Prop :=
  ∀ p ∈ profiles, ∃ d raw, s.directories p.id = some d ∧ d.auth = some raw ∧
    Readable reader raw p.accountId

/-- The registry is `r`, and each of its profiles has its sign-in. -/
structure Holds (r : Registry) (s : State Raw) : Prop where
  file : s.registry = some r.file ∨ s.registry = none ∧ r = ⟨none, []⟩
  valid : r.Valid
  stored : Stored reader r.profiles s

def Good (s : State Raw) : Prop := ∃ r, Holds reader r s

/-- An access, which uses up the script, leaves `I` alone. -/
def Settled (I : State Raw → Prop) : Prop :=
  ∀ s native script, script <:+ s.script → I s → I { s with native := native, script := script }

end

section

variable {Raw α : Type} {reader : Reader Raw} {r : Registry} {I : State Raw → Prop}

theorem Holds.same {s t : State Raw} (h : Holds reader r s) (hregistry : t.registry = s.registry)
    (hdirectories : t.directories = s.directories) : Holds reader r t where
  file := by
    rw [hregistry]
    exact h.file
  valid := h.valid
  stored := by
    unfold Stored
    rw [hdirectories]
    exact h.stored

theorem holds_settled : Settled (Holds reader r) := fun _ _ _ _ h => h.same rfl rfl

theorem good_settled : Settled (Good reader) := by
  rintro s native script _ ⟨r, h⟩
  exact ⟨r, h.same rfl rfl⟩

theorem Settled.and_directories (h : Settled I)
    (Q : (String → Option (Directory Raw)) → Prop) : Settled fun s => I s ∧ Q s.directories :=
  fun s native script hscript hs => ⟨h s native script hscript hs.1, hs.2⟩

theorem of_good {c : Routine Raw α} {Q : α → State Raw → Prop} {E : Stop → State Raw → Prop}
    (h : ∀ r, Triple (Holds reader r) c Q E) : Triple (Good reader) c Q E := by
  rintro s ⟨r, hr⟩
  exact h r s hr

theorem Settled.access (h : Settled I) : Keeps I (access : Routine Raw Fate) :=
  Keeps.of_state fun s hs => h s _ _ (List.tail_suffix _) hs

variable {P : State Raw → Prop}

theorem catching_spec {kind : Problem → Bool}
    {body handler : Routine Raw α} {Q : α → State Raw → Prop}
    {F E : Stop → State Raw → Prop} (hbody : Triple P body Q F)
    (hhandler : ∀ problem, kind problem = true → Triple (F (.raised problem)) handler Q E)
    (hrest : ∀ stop s, F stop s → (∀ problem, stop = .raised problem → kind problem = false) →
      E stop s) : Triple P (catching kind body handler) Q E := by
  apply Triple.attempt hbody
  intro stop
  cases stop with
  | raised problem =>
    dsimp only
    split
    · rename_i hkind
      exact hhandler problem hkind
    rename_i hkind
    apply Triple.raise
    intro s hs
    apply hrest _ s hs
    intro other heq
    cases heq
    exact Bool.eq_false_iff.mpr hkind
  | crashed =>
    apply Triple.raise
    intro s hs
    apply hrest _ s hs
    intro other heq
    cases heq

theorem keeps_catching {kind : Problem → Bool} {body handler : Routine Raw α}
    (hbody : Keeps I body) (hhandler : Keeps I handler) : Keeps I (catching kind body handler) :=
  catching_spec hbody (fun _ _ => hhandler) fun _ _ hs _ => hs

variable {s : State Raw}

theorem registry_run (hreader : reader.Lawful) (h : Holds reader r s) :
    registry reader s = (.ok r, s) := by
  unfold registry
  rw [bind_read_run]
  cases h.file with
  | inl hfile =>
    rw [hfile]
    dsimp only
    rw [h.valid.read hreader]
    rfl
  | inr hnone =>
    rw [hnone.1, hnone.2]
    rfl

theorem registry_spec (hreader : reader.Lawful) {Q : State Raw → Prop} :
    Triple (fun s => Holds reader r s ∧ Q s) (registry reader)
      (fun found s => found = r ∧ Holds reader r s ∧ Q s) (fun _ _ => False) := by
  intro s hs
  rw [registry_run hreader hs.1]
  constructor
  · intro found t heq
    cases heq
    exact ⟨rfl, hs⟩
  · intro stop t heq
    cases heq

theorem readBounded_spec {limit : Nat} {content : Option Raw} :
    Triple I (readBounded reader limit content)
      (fun raw s => (content = some raw ∧ reader.size raw ≠ 0 ∧ reader.size raw ≤ limit) ∧ I s)
      (fun _ => I) := by
  unfold readBounded
  split
  · exact Triple.raise fun _ hs => hs
  split
  · exact Triple.raise fun _ hs => hs
  rename_i raw hsize
  apply Triple.pure
  intro s hs
  exact ⟨⟨rfl, by omega, by omega⟩, hs⟩

variable {raw : Raw}

theorem accountIdOf_spec :
    Triple I (accountIdOf reader raw)
      (fun accountId s => credentialAccountId reader raw = some accountId ∧ I s) (fun _ => I) := by
  unfold accountIdOf
  split
  · rename_i id hid
    exact Triple.pure fun s hs => ⟨hid, hs⟩
  · exact Triple.raise fun _ hs => hs

theorem currentCredential_spec (h : Settled I) :
    Triple I (currentCredential reader) (fun current s => Readable reader current.1 current.2 ∧ I s)
      (fun _ => I) := by
  unfold currentCredential
  apply Triple.bind (Q := fun _ => I)
  · exact h.access
  intro _
  apply Triple.bind (Q := fun _ => I)
  · exact Keeps.read
  intro native
  apply Triple.bind readBounded_spec
  intro raw
  apply Triple.of_pure
  intro hraw
  apply Triple.bind accountIdOf_spec
  intro accountId
  apply Triple.pure
  intro s hs
  exact ⟨⟨hraw.2.1, hraw.2.2, hs.1⟩, hs.2⟩

theorem access_directories {Q : (String → Option (Directory Raw)) → Prop} :
    Keeps (fun s => Holds reader r s ∧ Q s.directories) (access : Routine Raw Fate) :=
  (holds_settled.and_directories Q).access

variable {id : String}

theorem directory_spec :
    Triple I (directory id) (fun d s => I s ∧ s.directories id = some d) (fun _ => I) := by
  unfold directory
  apply Triple.bind (Q := fun found s => I s ∧ s.directories id = found)
  · exact Triple.read fun s hs => ⟨hs, rfl⟩
  intro found
  cases found with
  | none => exact Triple.raise fun _ hs => hs.1
  | some d => exact Triple.pure fun _ hs => hs

theorem end_problem {fate : Fate} :
    Triple P fate.end_ (fun _ s => fate = .done ∧ P s)
      (fun stop s => stop ≠ .raised .notFound ∧ fate ≠ .done ∧ P s) := by
  cases fate with
  | done => exact Triple.pure fun _ hs => ⟨rfl, hs⟩
  | failed effective leftover =>
    exact Triple.raise fun _ hs => ⟨(fun heq => by cases heq), (fun heq => by cases heq), hs⟩
  | crashed effective leftover =>
    exact Triple.raise fun _ hs => ⟨(fun heq => by cases heq), (fun heq => by cases heq), hs⟩

theorem end_spec {fate : Fate} :
    Triple P fate.end_ (fun _ s => fate = .done ∧ P s) (fun _ s => fate ≠ .done ∧ P s) :=
  end_problem.raises fun _ _ hs => hs.2

theorem keeps_end {fate : Fate} : Keeps I (fate.end_ : Routine Raw Unit) :=
  end_spec.weaken (fun _ hs => hs) (fun _ _ hs => hs.2) fun _ _ hs => hs.2

variable {d : Directory Raw}

theorem Holds.setDirectory (h : Holds reader r s) (hd : ∀ p ∈ r.profiles, p.id = id →
      ∃ raw, d.auth = some raw ∧ Readable reader raw p.accountId) :
    Holds reader r (s.setDirectory id (some d)) where
  file := h.file
  valid := h.valid
  stored := by
    intro p hp
    show ∃ d' raw, (if p.id = id then some d else s.directories p.id) = some d' ∧ _
    by_cases hid : p.id = id
    · obtain ⟨raw, hraw⟩ := hd p hp hid
      rw [if_pos hid]
      exact ⟨d, raw, rfl, hraw⟩
    · rw [if_neg hid]
      exact h.stored p hp

theorem setDirectory_self (s : State Raw) (id : String) (d : Option (Directory Raw)) :
    (s.setDirectory id d).directories id = d := if_pos rfl

theorem changeIn_spec {edit : Directory Raw → Directory Raw}
    {fate : Fate} (hedit : ∀ p ∈ r.profiles, p.id = id → ∀ raw, d.auth = some raw →
      Readable reader raw p.accountId →
        ∃ raw, (edit d).auth = some raw ∧ Readable reader raw p.accountId) :
    Triple (fun s => Holds reader r s ∧ s.directories id = some d) (changeIn id d edit fate)
      (fun _ s => Holds reader r s ∧ ∃ d', s.directories id = some d' ∧ d'.auth = (edit d).auth)
      (fun _ => Holds reader r) := by
  unfold changeIn
  dsimp only
  apply Triple.bind (Q := fun _ s => Holds reader r s ∧ (fate = .done →
    ∃ d', s.directories id = some d' ∧ d'.auth = (edit d).auth))
  · apply Triple.modify
    rintro s ⟨h, hd⟩
    refine ⟨h.setDirectory ?_, ?_⟩
    · intro p hp hid
      obtain ⟨d', raw, hd', hauth, hreadable⟩ := h.stored p hp
      rw [hid, hd] at hd'
      cases hd'
      show ∃ raw, (if fate.effective then edit d else d).auth = some raw ∧ _
      split
      · exact hedit p hp hid raw hauth hreadable
      · exact ⟨raw, hauth, hreadable⟩
    · rintro rfl
      exact ⟨_, setDirectory_self s id _, rfl⟩
  · intro _
    exact end_spec.weaken (fun _ hs => hs) (fun _ _ hs => ⟨hs.2.1, hs.2.2 hs.1⟩)
      fun _ _ hs => hs.2.1

theorem writeAuth_spec {id : String}
    (hraw : ∀ p ∈ r.profiles, p.id = id → Readable reader raw p.accountId) :
    Triple (Holds reader r) (writeAuth id raw)
      (fun _ s => Holds reader r s ∧ ∃ d, s.directories id = some d ∧ d.auth = some raw)
      (fun _ => Holds reader r) := by
  unfold writeAuth
  apply Triple.bind (Q := fun _ => Holds reader r)
  · exact holds_settled.access
  intro fate
  apply Triple.bind directory_spec
  intro d
  exact changeIn_spec fun p hp hid _ _ _ => ⟨raw, rfl, hraw p hp hid⟩

theorem keeps_writeUsage : Keeps (Holds reader r) (writeUsage id raw) := by
  unfold writeUsage
  apply Triple.bind (Q := fun _ => Holds reader r)
  · exact holds_settled.access
  intro fate
  apply Triple.bind directory_spec
  intro d
  exact Triple.weaken (changeIn_spec fun _ _ _ raw hauth hreadable => ⟨raw, hauth, hreadable⟩)
    (fun _ hs => hs) (fun _ _ hs => hs.1) fun _ _ hs => hs

theorem keeps_change {edit : State Raw → State Raw} {fate : Fate}
    (hedit : ∀ s, I s → I (edit s)) : Keeps I (change edit (fun s => s) fate) := by
  unfold change
  refine Keeps.bind (Keeps.modify fun s hs => ?_) fun _ => ?_
  · split
    · exact hedit s hs
    · exact hs
  refine Keeps.bind (Keeps.modify fun s hs => ?_) fun _ => ?_
  · split
    · exact hs
    · exact hs
  · exact keeps_end

theorem keeps_writeNative (h : Settled I) : Keeps I (writeNative raw) := by
  unfold writeNative
  exact Keeps.bind h.access fun fate => keeps_change fun s hs => h s _ _ (List.suffix_refl _) hs

theorem keeps_unlinkNative (h : Settled I) : Keeps I (unlinkNative : Routine Raw Unit) := by
  unfold unlinkNative
  refine Keeps.bind h.access fun fate => Keeps.bind Keeps.read fun native => ?_
  split
  · exact Keeps.raise
  · exact keeps_change fun s hs => h s _ _ (List.suffix_refl _) hs

/-- A registry of profiles that have their sign-ins is saved, or the old one stays. -/
theorem saveRegistry_spec {r' : Registry} (hvalid : r'.Valid) :
    Triple (fun s => Holds reader r s ∧ Stored reader r'.profiles s) (saveRegistry r')
      (fun _ => Good reader) (fun _ => Good reader) := by
  unfold saveRegistry
  apply Triple.bind (Q := fun _ s => Holds reader r s ∧ Stored reader r'.profiles s)
  · have haccess : Keeps (fun s => Holds reader r s ∧ Stored reader r'.profiles s)
        (access : Routine Raw Fate) :=
      access_directories (Q := fun directories => ∀ p ∈ r'.profiles, ∃ d raw,
        directories p.id = some d ∧ d.auth = some raw ∧ Readable reader raw p.accountId)
    exact Triple.weaken haccess (fun _ hs => hs) (fun _ _ hs => hs) fun _ _ hs => ⟨r, hs.1⟩
  intro fate
  unfold change
  apply Triple.bind (Q := fun _ => Good reader)
  · apply Triple.modify
    rintro s ⟨h, hstored⟩
    split
    · exact ⟨r', .inl rfl, hvalid, hstored⟩
    · exact ⟨r, h⟩
  intro _
  refine Keeps.bind (Keeps.modify fun s hs => ?_) fun _ => ?_
  · split
    · exact hs
    · exact hs
  · exact keeps_end

/-! ## The operations -/

theorem Holds.good (h : Holds reader r s) : Good reader s := ⟨r, h⟩

theorem after_registry (hreader : reader.Lawful) {f : Registry → Routine Raw α}
    (hf : ∀ r, Triple (Holds reader r) (f r) (fun _ => Good reader) (fun _ => Good reader)) :
    Keeps (Good reader) (registry reader >>= f) := by
  apply of_good
  intro r
  apply Triple.bind (Q := fun found s => found = r ∧ Holds reader r s)
  · exact (registry_spec (Q := fun _ => True) hreader).weaken (fun _ hs => ⟨hs, trivial⟩)
      (fun _ _ hs => ⟨hs.1, hs.2.1⟩) fun _ _ hs => hs.elim
  · intro found
    apply Triple.of_pure
    rintro rfl
    exact hf found

variable {accountId : String} {p : Profile}

theorem profileOf_some {r : Registry} {accountId : String}
    (h : r.profileOf accountId = some p) : p ∈ r.profiles ∧ p.accountId = accountId := by
  have heq := List.find?_some h
  exact ⟨List.mem_of_find?_eq_some h, of_decide_eq_true heq⟩

theorem profileOf_none {r : Registry} (h : r.profileOf accountId = none) :
    accountId ∉ r.profiles.map (·.accountId) := by
  intro hmem
  obtain ⟨p, hp, heq⟩ := List.mem_map.mp hmem
  exact List.find?_eq_none.mp h p hp (decide_eq_true heq)

theorem profile?_some {r : Registry} (h : r.profile? id = some p) : p ∈ r.profiles ∧ p.id = id := by
  have heq := List.find?_some h
  exact ⟨List.mem_of_find?_eq_some h, of_decide_eq_true heq⟩

theorem writeAuth_listed {raw : Raw}
    (hp : r.profileOf accountId = some p) (hraw : Readable reader raw accountId) :
    Triple (Holds reader r) (writeAuth p.id raw) (fun _ => Holds reader r)
      (fun _ => Holds reader r) := by
  obtain ⟨hmem, haccount⟩ := profileOf_some hp
  intro s hs
  have hsame : ∀ q ∈ r.profiles, q.id = p.id → Readable reader raw q.accountId := by
    intro q hq hid
    rw [List.inj_on_of_nodup_map hs.valid.ids hq hmem hid, haccount]
    exact hraw
  exact ((writeAuth_spec hsame).returns (fun _ _ h => h.1)) s hs

theorem optionalCredential_spec (h : Settled I) :
    Triple I
      (catching isUnreadable
        (do
          let current ← currentCredential reader
          pure (some current))
        (pure none))
      (fun current s => (∀ c ∈ current, Readable reader c.1 c.2) ∧ I s) (fun _ => I) := by
  apply catching_spec (F := fun _ => I)
  · apply Triple.bind (currentCredential_spec h)
    intro current
    apply Triple.pure
    intro s hs
    refine ⟨?_, hs.2⟩
    intro c hc
    cases hc
    exact hs.1
  · intro problem _
    apply Triple.pure
    intro s hs
    refine ⟨?_, hs⟩
    intro c hc
    cases hc
  · exact fun _ _ hs _ => hs

theorem keeps_refreshCurrentIfSaved (hreader : reader.Lawful) :
    Keeps (Good reader) (refreshCurrentIfSaved reader) := by
  unfold refreshCurrentIfSaved
  apply Triple.bind (optionalCredential_spec good_settled)
  intro current
  apply Triple.of_pure
  intro hcurrent
  cases current with
  | none => exact Keeps.pure
  | some current =>
    apply after_registry hreader
    intro r
    cases hp : r.profileOf current.2 with
    | none => exact Triple.pure fun _ hs => hs.good
    | some p =>
      exact (writeAuth_listed hp (hcurrent current rfl)).weaken (fun _ hs => hs)
        (fun _ _ hs => hs.good) fun _ _ hs => hs.good

theorem keeps_preserveCurrentForNewLogin (hreader : reader.Lawful) :
    Keeps (Good reader) (preserveCurrentForNewLogin reader) := by
  unfold preserveCurrentForNewLogin
  apply Triple.bind (currentCredential_spec good_settled)
  intro current
  apply Triple.of_pure
  intro hcurrent
  apply after_registry hreader
  intro r
  cases hp : r.profileOf current.2 with
  | none => exact Triple.raise fun _ hs => hs.good
  | some p =>
    apply Triple.bind (Q := fun _ => Good reader)
    · exact (writeAuth_listed hp hcurrent).weaken (fun _ hs => hs)
        (fun _ _ hs => hs.good) fun _ _ hs => hs.good
    · exact fun _ => Keeps.pure

theorem responsePlan_spec {response : Json} :
    Triple I (responsePlan reader response)
      (fun plan s => (∀ p ∈ plan, p ∈ safePlanTypes) ∧ I s) (fun _ => I) := by
  unfold responsePlan
  split
  · split
    · split
      · apply Triple.pure
        intro s hs
        exact ⟨fun p hp => normalizePlan_safe hp, hs⟩
      · exact Triple.raise fun _ hs => hs
    · exact Triple.raise fun _ hs => hs
  · exact Triple.raise fun _ hs => hs

theorem Readable.isAccountId {raw : Raw}
    (h : Readable reader raw accountId) : isAccountId accountId = true := by
  have haccount := h.account
  unfold credentialAccountId at haccount
  split at haccount
  · obtain ⟨_, haccount⟩ := Option.ite_none_right_eq_some.mp haccount
    split at haccount
    · split at haccount
      · obtain ⟨hid, haccount⟩ := Option.ite_none_right_eq_some.mp haccount
        cases haccount
        exact hid
      · cases haccount
    · cases haccount
  · cases haccount

/-- A new profile, whose sign-in is in place. -/
theorem Registry.Valid.add (h : r.Valid) (hp : p.Valid)
    (hcount : r.profiles.length < maxProfiles) (hid : p.id ∉ r.profiles.map (·.id))
    (haccount : p.accountId ∉ r.profiles.map (·.accountId)) :
    Registry.Valid ⟨some p.id, r.profiles ++ [p]⟩ where
  profiles := by
    intro q hq
    cases List.mem_append.mp hq with
    | inl hold => exact h.profiles q hold
    | inr hnew =>
      rw [List.mem_singleton.mp hnew]
      exact hp
  count := by
    rw [List.length_append]
    exact hcount
  ids := by
    rw [List.map_append]
    exact List.Nodup.append h.ids (List.nodup_singleton _) (List.disjoint_singleton.mpr hid)
  accountIds := by
    rw [List.map_append]
    exact List.Nodup.append h.accountIds (List.nodup_singleton _)
      (List.disjoint_singleton.mpr haccount)
  active := by
    intro id hactive
    cases hactive
    rw [List.map_append]
    exact List.mem_append_right _ List.mem_cons_self

def relabel (p : Profile) (q : Profile) : Profile := if q.accountId = p.accountId then p else q

theorem Registry.Valid.relabel (h : r.Valid) {old : Profile} (hold : old ∈ r.profiles)
    (hp : p.Valid) (hid : p.id = old.id) (haccount : p.accountId = old.accountId) :
    Registry.Valid ⟨some p.id, r.profiles.map (relabel p)⟩ := by
  have hsame : ∀ q ∈ r.profiles, (Files.relabel p q).id = q.id ∧
      (Files.relabel p q).accountId = q.accountId := by
    intro q hq
    unfold Files.relabel
    split
    · rename_i heq
      have hqo : q = old :=
        List.inj_on_of_nodup_map h.accountIds hq hold (heq.trans haccount)
      exact ⟨hid.trans (congrArg Profile.id hqo.symm), heq.symm⟩
    · exact ⟨rfl, rfl⟩
  have hids : (r.profiles.map (Files.relabel p)).map (·.id) = r.profiles.map (·.id) := by
    rw [List.map_map]
    exact List.map_congr_left fun q hq => (hsame q hq).1
  have haccounts : (r.profiles.map (Files.relabel p)).map (·.accountId) =
      r.profiles.map (·.accountId) := by
    rw [List.map_map]
    exact List.map_congr_left fun q hq => (hsame q hq).2
  constructor
  · intro q hq
    obtain ⟨x, hx, rfl⟩ := List.mem_map.mp hq
    unfold Files.relabel
    split
    · exact hp
    · exact h.profiles x hx
  · rw [List.length_map]
    exact h.count
  · rw [hids]
    exact h.ids
  · rw [haccounts]
    exact h.accountIds
  · intro id hactive
    cases hactive
    rw [hids, hid]
    exact List.mem_map_of_mem hold

theorem Stored.relabel (h : Stored reader r.profiles s)
    {old : Profile} (hold : old ∈ r.profiles) (hid : p.id = old.id)
    (haccount : p.accountId = old.accountId) :
    Stored reader (r.profiles.map (relabel p)) s := by
  intro q hq
  obtain ⟨x, hx, rfl⟩ := List.mem_map.mp hq
  unfold Files.relabel
  split
  · rw [hid, haccount]
    exact h old hold
  · exact h x hx

theorem Holds.unlisted (h : Holds reader r s)
    (hnone : s.directories id = none) : id ∉ r.profiles.map (·.id) := by
  intro hmem
  obtain ⟨p, hp, heq⟩ := List.mem_map.mp hmem
  obtain ⟨d, raw, hd, _⟩ := h.stored p hp
  rw [heq, hnone] at hd
  cases hd

theorem createDirectory_spec :
    Triple (fun s => Holds reader r s ∧ s.directories id = none) (createDirectory id)
      (fun _ s => Holds reader r s ∧ id ∉ r.profiles.map (·.id)) (fun _ => Holds reader r) := by
  unfold createDirectory
  apply Triple.bind (Q := fun _ s => Holds reader r s ∧ s.directories id = none)
  · have haccess : Keeps (fun s => Holds reader r s ∧ s.directories id = none)
        (access : Routine Raw Fate) :=
      access_directories (Q := fun directories => directories id = none)
    exact Triple.weaken haccess (fun _ hs => hs) (fun _ _ hs => hs) fun _ _ hs => hs.1
  intro fate s hs
  have hunlisted := hs.1.unlisted hs.2
  have hchange : Keeps (Holds reader r) (change (fun s =>
      if (s.directories id).isSome then s else s.setDirectory id (some .fresh)) (fun s => s)
        fate) := by
    apply keeps_change
    intro t ht
    split
    · exact ht
    apply ht.setDirectory
    intro p hp heq
    exact absurd (heq ▸ List.mem_map_of_mem hp) hunlisted
  exact Triple.weaken hchange (fun _ h => h) (fun _ _ h => ⟨h, hunlisted⟩) (fun _ _ h => h) s hs.1

theorem saveCurrent_good (hreader : reader.Lawful) {label : String} {response : Json}
    {drawn : String} (hdrawn : isProfileId drawn = true) :
    Triple (fun s => Good reader s ∧ s.directories drawn = none)
      (saveCurrent reader label response drawn) (fun _ => Good reader) (fun _ => Good reader) := by
  have hsettled : Settled fun s : State Raw => Good reader s ∧ s.directories drawn = none :=
    good_settled.and_directories fun directories => directories drawn = none
  unfold saveCurrent
  cases hlabel : label? label with
  | none => exact Triple.raise fun _ hs => hs.1
  | some label =>
    dsimp only
    apply Triple.bind (Q := fun plan s => (∀ p ∈ plan, p ∈ safePlanTypes) ∧
      Good reader s ∧ s.directories drawn = none)
    · exact responsePlan_spec.raises fun _ _ hs => hs.1
    intro plan
    apply Triple.of_pure
    intro hplan
    apply Triple.bind (Q := fun current s => Readable reader current.1 current.2 ∧
      Good reader s ∧ s.directories drawn = none)
    · exact (currentCredential_spec hsettled).raises fun _ _ hs => hs.1
    intro current
    apply Triple.of_pure
    intro hcurrent
    rintro s ⟨⟨r, hr⟩, hnone⟩
    apply Triple.bind (P := fun s => Holds reader r s ∧ s.directories drawn = none)
      (Q := fun found s => found = r ∧ Holds reader r s ∧ s.directories drawn = none) _ _ s
      ⟨hr, hnone⟩
    · exact (registry_spec hreader).raises fun _ _ hs => hs.elim
    intro found
    apply Triple.of_pure
    rintro rfl
    cases hp : found.profileOf current.2 with
    | none =>
      dsimp only
      split
      · exact Triple.raise fun _ hs => hs.1.good
      rename_i hroom
      have hnew : Profile.Valid ⟨drawn, label, current.2, plan⟩ :=
        ⟨hdrawn, hcurrent.isAccountId, label?_label hlabel, hplan⟩
      apply Triple.bind
        (Q := fun _ s => Holds reader found s ∧ drawn ∉ found.profiles.map (·.id))
      · exact createDirectory_spec.raises fun _ _ hs => hs.good
      intro _ s hs
      have hwrite : Triple (Holds reader found) (writeAuth drawn current.1)
          (fun _ s => Holds reader found s ∧ ∃ d, s.directories drawn = some d ∧
            d.auth = some current.1) (fun _ => Holds reader found) := by
        apply writeAuth_spec
        intro p hp hid
        exact absurd (hid ▸ List.mem_map_of_mem hp) hs.2
      have hvalid := hs.1.valid.add hnew (Nat.not_le.mp hroom) hs.2 (profileOf_none hp)
      apply Triple.bind (P := Holds reader found) (Q := fun _ s => Holds reader found s ∧
        Stored reader (found.profiles ++ [⟨drawn, label, current.2, plan⟩]) s) _ _ s hs.1
      · apply hwrite.weaken (fun _ h => h) _ fun _ _ h => h.good
        rintro _ t ⟨ht, d, hd, hauth⟩
        refine ⟨ht, ?_⟩
        intro q hq
        cases List.mem_append.mp hq with
        | inl hold => exact ht.stored q hold
        | inr hin =>
          rw [List.mem_singleton.mp hin]
          exact ⟨d, current.1, hd, hauth, hcurrent⟩
      · intro _
        exact Triple.bind (saveRegistry_spec hvalid) fun _ => Keeps.pure
    | some old =>
      obtain ⟨hold, haccount⟩ := profileOf_some hp
      dsimp only
      apply Triple.bind (Q := fun _ => Holds reader found)
      · exact (writeAuth_listed hp hcurrent).weaken (fun _ hs => hs.1) (fun _ _ hs => hs)
          fun _ _ hs => hs.good
      intro _ s hs
      have hp' : Profile.Valid { old with label := label, plan := plan } :=
        ⟨(hs.valid.profiles old hold).id, (hs.valid.profiles old hold).accountId,
          label?_label hlabel, hplan⟩
      have hvalid := hs.valid.relabel hold hp' rfl rfl
      have hstored : ∀ t, Holds reader found t → Stored reader (found.profiles.map
          (relabel { old with label := label, plan := plan })) t :=
        fun t ht => ht.stored.relabel hold rfl rfl
      rw [← haccount]
      exact (Triple.bind (saveRegistry_spec hvalid) fun _ => Keeps.pure).weaken
        (fun t ht => ⟨ht, hstored t ht⟩) (fun _ _ h => h) (fun _ _ h => h) s hs

/-- `target_credential` succeeds for a listed profile, with a sign-in of its account. -/
theorem Holds.target (hreader : reader.Lawful) (h : Holds reader r s) (hp : p ∈ r.profiles) :
    ∃ raw, targetCredential reader p.id s = (.ok (raw, p.accountId), s) := by
  obtain ⟨d, raw, hd, hauth, hreadable⟩ := h.stored p hp
  have hfind : r.profile? p.id = some p := by
    cases hfind : r.profile? p.id with
    | none => exact absurd (decide_eq_true rfl) (List.find?_eq_none.mp hfind p hp)
    | some q =>
      obtain ⟨hq, hid⟩ := profile?_some hfind
      rw [List.inj_on_of_nodup_map h.valid.ids hq hp hid]
  have hsize : ¬ (reader.size raw = 0 ∨ maxCredentialBytes < reader.size raw) := by
    have hnonempty := hreadable.nonempty
    have hle := hreadable.size
    omega
  refine ⟨raw, ?_⟩
  unfold targetCredential
  rw [if_neg (not_not.mpr (h.valid.profiles p hp).id), bind_run_of_ok (registry_run hreader h),
    hfind]
  show (readBounded reader maxCredentialBytes ((s.directories p.id).bind (·.auth)) >>= _) s = _
  rw [hd]
  show (readBounded reader maxCredentialBytes d.auth >>= _) s = _
  rw [hauth, readBounded, if_neg hsize, bind_pure_run, accountIdOf, hreadable.account,
    bind_pure_run, if_neg (not_not.mpr rfl)]
  rfl

theorem targetCredential_spec (hreader : reader.Lawful) :
    Triple (Holds reader r) (targetCredential reader id)
      (fun target s => (∃ p ∈ r.profiles, p.id = id ∧ target.2 = p.accountId) ∧ Holds reader r s)
      (fun _ => Holds reader r) := by
  unfold targetCredential
  split
  · exact Triple.raise fun _ hs => hs
  apply Triple.bind (Q := fun found s => found = r ∧ Holds reader r s)
  · exact (registry_spec (Q := fun _ => True) hreader).weaken (fun _ hs => ⟨hs, trivial⟩)
      (fun _ _ hs => ⟨hs.1, hs.2.1⟩) fun _ _ hs => hs.elim
  intro found
  apply Triple.of_pure
  rintro rfl
  cases hp : found.profile? id with
  | none => exact Triple.raise fun _ hs => hs
  | some p =>
    obtain ⟨hmem, hid⟩ := profile?_some hp
    dsimp only
    refine Triple.bind (Q := fun _ => Holds reader found) Keeps.read fun d => ?_
    apply Triple.bind readBounded_spec
    intro raw
    apply Triple.of_pure
    intro _
    apply Triple.bind accountIdOf_spec
    intro accountId
    split
    · exact Triple.raise fun _ hs => hs.2
    · exact Triple.pure fun _ hs => ⟨⟨p, hmem, hid, rfl⟩, hs.2⟩

theorem keeps_refreshSavedCredential [DecidableEq Raw] (hreader : reader.Lawful)
    {previous refreshed : Raw} :
    Keeps (Good reader) (refreshSavedCredential reader id previous refreshed) := by
  unfold refreshSavedCredential
  split
  · exact Keeps.pure
  rename_i hsize
  apply of_good
  intro r
  apply Triple.bind ((targetCredential_spec hreader).raises fun _ _ hs => hs.good)
  intro target
  apply Triple.of_pure
  rintro ⟨p, hp, hid, haccount⟩
  dsimp only
  split
  · exact Triple.pure fun _ hs => hs.good
  apply Triple.bind (accountIdOf_spec.raises fun _ _ hs => hs.good)
  intro refreshedId
  apply Triple.of_pure
  intro hrefreshed
  split
  · exact Triple.pure fun _ hs => hs.good
  rename_i hsame
  have hreadable : Readable reader refreshed p.accountId := by
    refine ⟨by omega, by omega, ?_⟩
    rw [hrefreshed, not_not.mp hsame, haccount]
  split
  · apply Triple.bind (Q := fun _ => Good reader)
    · intro s hs
      have hwrite : Triple (Holds reader r) (writeAuth id refreshed)
          (fun _ s => Holds reader r s ∧ ∃ d, s.directories id = some d ∧
            d.auth = some refreshed) (fun _ => Holds reader r) := by
        apply writeAuth_spec
        intro q hq heq
        rw [List.inj_on_of_nodup_map hs.valid.ids hq hp (heq.trans hid.symm)]
        exact hreadable
      exact hwrite.weaken (fun _ h => h) (fun _ _ h => h.1.good) (fun _ _ h => h.good) s hs
    · exact fun _ => Keeps.pure
  · exact Triple.pure fun _ hs => hs.good

theorem keeps_writeUsageSnapshot (hreader : reader.Lawful) {id accountId : String} :
    Keeps (Good reader) (writeUsageSnapshot reader id accountId raw) := by
  unfold writeUsageSnapshot
  split
  · exact Keeps.raise
  apply of_good
  intro r
  apply Triple.bind ((targetCredential_spec hreader).raises fun _ _ hs => hs.good)
  intro target
  apply Triple.of_pure
  intro _
  split
  · exact Triple.raise fun _ hs => hs.good
  · exact Triple.weaken keeps_writeUsage (fun _ hs => hs) (fun _ _ hs => hs.good)
      fun _ _ hs => hs.good

theorem keeps_activateCredential (h : Settled I) : Keeps I (activateCredential reader raw) := by
  unfold activateCredential
  split
  · exact Keeps.raise
  apply Triple.bind (Q := fun _ => I)
  · exact accountIdOf_spec.returns (fun _ _ hs => hs.2)
  · exact fun _ => keeps_writeNative h

theorem Registry.Valid.activate (h : r.Valid) {active : Option String}
    (hactive : ∀ id ∈ active, id ∈ r.profiles.map (·.id)) :
    Registry.Valid ⟨active, r.profiles⟩ :=
  ⟨h.profiles, h.count, h.ids, h.accountIds, hactive⟩

theorem activate_good {active : Option String}
    (hactive : ∀ id ∈ active, id ∈ r.profiles.map (·.id)) :
    Triple (Holds reader r) (saveRegistry ⟨active, r.profiles⟩) (fun _ => Good reader)
      (fun _ => Good reader) := by
  intro s hs
  have hsave : Triple (fun t => Holds reader r t ∧ Stored reader r.profiles t)
      (saveRegistry ⟨active, r.profiles⟩) (fun _ => Good reader) (fun _ => Good reader) :=
    saveRegistry_spec (hs.valid.activate hactive)
  exact hsave.weaken (fun t ht => ⟨ht, ht.stored⟩) (fun _ _ h => h) (fun _ _ h => h) s hs

theorem keeps_restoreCredential (hreader : reader.Lawful) {raw : Option Raw} :
    Keeps (Good reader) (restoreCredential reader raw) := by
  have hrest : Keeps (Good reader) (do
      let r ← registry reader
      let current := raw.bind (credentialAccountId reader)
      saveRegistry ⟨(r.profiles.find? fun p => some p.accountId = current).map (·.id),
        r.profiles⟩) := by
    apply after_registry hreader
    intro r
    apply activate_good
    intro id hid
    obtain ⟨p, hp, rfl⟩ := Option.map_eq_some_iff.mp hid
    exact List.mem_map_of_mem (List.mem_of_find?_eq_some hp)
  unfold restoreCredential
  cases raw with
  | none =>
    apply Keeps.bind (keeps_catching (keeps_unlinkNative good_settled) Keeps.pure)
    exact fun _ => hrest
  | some raw =>
    dsimp only
    split
    · exact Keeps.bind Keeps.raise fun _ => hrest
    · exact Keeps.bind (keeps_writeNative good_settled) fun _ => hrest

theorem keeps_commitActive (hreader : reader.Lawful) :
    Keeps (Good reader) (commitActive reader id) := by
  unfold commitActive
  apply after_registry hreader
  intro r
  split
  · exact Triple.raise fun _ hs => hs.good
  rename_i hsome
  apply activate_good
  intro active hactive
  cases hactive
  cases hp : r.profile? id with
  | none =>
    rw [hp] at hsome
    exact absurd rfl hsome
  | some p =>
    obtain ⟨hmem, hid⟩ := profile?_some hp
    exact hid ▸ List.mem_map_of_mem hmem

end

end CodexBridge.Accounts.Files
