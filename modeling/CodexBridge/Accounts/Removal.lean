import CodexBridge.Accounts.Usable

/-! # Saved profiles stay usable

The registry is read back, every profile in it has its sign-in, and an inactive profile can be
removed, as long as no removal stops after the sign-in is gone and before the registry is saved,
and no write leaves its temporary file in the directory of a profile.
-/

namespace CodexBridge.Accounts.Files

open Effect

section

variable {Raw α : Type} {reader : Reader Raw} {r : Registry} {p : Profile}
  {I P : State Raw → Prop} {s : State Raw} {id : String} {d : Directory Raw}

/-! ## A removal -/

def fateAt (script : List (Moment Raw)) (k : Nat) : Fate := (script.getD k .quiet).fate

def removable (reader : Reader Raw) (s : State Raw) (id : String) : Bool :=
  match (listProfiles reader s).1 with
  | .ok listed => (listed.any fun item => decide (item.1.id = id)) &&
      !listed.any fun item => decide (item.1.id = id) && item.2
  | .error _ => false

/-- A removal that deletes the sign-in gets to its end: the directory can be removed, and the
registry is replaced. -/
def Completes (reader : Reader Raw) (s : State Raw) (id : String) (script : List (Moment Raw)) :
    Prop :=
  removable reader { s with script := script } id = true →
    ((s.directories id).any (·.usage.isSome) = true → fateAt script 1 = .done) →
      (fateAt script 2).effective = true →
        fateAt script 2 = .done ∧ (s.directories id).all (·.leftovers = 0) = true ∧
          fateAt script 3 = .done ∧ (fateAt script 4).effective = true

instance (s : State Raw) (id : String) (script : List (Moment Raw)) :
    Decidable (Completes reader s id script) :=
  inferInstanceAs (Decidable (_ → (_ → _) → _ → _))

structure Gutted (reader : Reader Raw) (r : Registry) (profiles : List Profile) (id : String)
    (d : Option (Directory Raw)) (s : State Raw) : Prop where
  file : s.registry = some r.file ∨ s.registry = none ∧ r = ⟨none, []⟩
  stored : Stored reader profiles s
  directory : s.directories id = d

variable {script : List (Moment Raw)} {k : Nat}

theorem access_at (h : Settled P) :
    Triple (fun s => P s ∧ s.script = script.drop k) access
      (fun fate s => fate = fateAt script k ∧ P s ∧ s.script = script.drop (k + 1))
      (fun _ _ => False) := by
  rintro s ⟨hs, hscript⟩
  constructor
  · intro fate t ht
    cases ht
    refine ⟨?_, h s _ _ (List.tail_suffix _) hs, ?_⟩
    · rw [hscript, fateAt, List.headD_eq_head?_getD, List.head?_drop, List.getD_eq_getElem?_getD]
    · show s.script.tail = _
      rw [hscript, List.tail_drop]
  · intro stop t ht
    cases ht

variable {profiles : List Profile}

theorem gutted_settled {d : Option (Directory Raw)} : Settled (Gutted reader r profiles id d) :=
  fun _ _ _ _ h => ⟨h.file, h.stored, h.directory⟩

theorem directory_at {d : Directory Raw} (h : ∀ s, P s → s.directories id = some d) :
    Triple P (directory id) (fun found s => found = d ∧ P s) (fun _ _ => False) := by
  unfold directory
  apply Triple.bind (Q := fun found s => found = some d ∧ P s)
  · exact Triple.read fun s hs => ⟨h s hs, hs⟩
  intro found
  apply Triple.of_pure
  rintro rfl
  exact Triple.pure fun s hs => ⟨rfl, hs⟩

/-- The access and the look for the directory that begin a deletion. -/
theorem opened_at {d : Directory Raw} {rest : Fate → Directory Raw → Routine Raw Unit}
    {Q : Unit → State Raw → Prop} {F : Stop → State Raw → Prop}
    (hrest : Triple
      (fun s => Gutted reader r profiles id (some d) s ∧ s.script = script.drop (k + 1))
      (rest (fateAt script k) d) Q F) :
    Triple (fun s => Gutted reader r profiles id (some d) s ∧ s.script = script.drop k)
      (access >>= fun fate => directory id >>= rest fate) Q F := by
  apply Triple.bind (Q := fun fate s => fate = fateAt script k ∧
    Gutted reader r profiles id (some d) s ∧ s.script = script.drop (k + 1))
  · exact (access_at gutted_settled).raises fun _ _ h => h.elim
  intro fate
  apply Triple.of_pure
  rintro rfl
  apply Triple.bind (Q := fun found s => found = d ∧
    Gutted reader r profiles id (some d) s ∧ s.script = script.drop (k + 1))
  · exact (directory_at fun _ h => h.1.directory).raises fun _ _ h => h.elim
  intro found
  apply Triple.of_pure
  rintro rfl
  exact hrest

theorem Gutted.setDirectory {profiles : List Profile}
    {d d' : Option (Directory Raw)} (h : Gutted reader r profiles id d s)
    (hd : ∀ p ∈ profiles, p.id = id → ∃ x raw, d' = some x ∧ x.auth = some raw ∧
      Readable reader raw p.accountId) :
    Gutted reader r profiles id d' (s.setDirectory id d') where
  file := h.file
  stored := by
    intro p hp
    show ∃ x raw, (if p.id = id then d' else s.directories p.id) = some x ∧ _
    by_cases hid : p.id = id
    · rw [if_pos hid]
      exact hd p hp hid
    · rw [if_neg hid]
      exact h.stored p hp
  directory := setDirectory_self s id d'

theorem unlinkUsage_at :
    Triple (fun s => Gutted reader r profiles id (some d) s ∧ s.script = script.drop k)
      (catching (· = .notFound) (unlinkUsage id) (pure ()))
      (fun _ s => (d.usage.isSome = true → fateAt script k = .done) ∧
        Gutted reader r profiles id (some { d with usage := none }) s ∧
          s.script = script.drop (k + 1))
      (fun _ s => fateAt script k ≠ .done ∧ ∃ d', d'.auth = d.auth ∧
        Gutted reader r profiles id (some d') s) := by
  -- the directory after the access, whatever became of the snapshot
  have hgone : ∀ s, Gutted reader r profiles id (some d) s →
      Gutted reader r profiles id (some { d with usage := none })
        (s.setDirectory id (some { d with usage := none })) := by
    intro s hs
    apply hs.setDirectory
    intro p hp hid
    obtain ⟨x, raw, hx, hauth, hreadable⟩ := hs.stored p hp
    rw [hid, hs.directory] at hx
    cases hx
    exact ⟨_, raw, rfl, hauth, hreadable⟩
  apply catching_spec (F := fun stop s => stop = .raised .notFound ∧ d.usage = none ∧
      Gutted reader r profiles id (some d) s ∧ s.script = script.drop (k + 1) ∨
    stop ≠ .raised .notFound ∧ fateAt script k ≠ .done ∧
      ∃ d', d'.auth = d.auth ∧ Gutted reader r profiles id (some d') s)
  · unfold unlinkUsage
    apply opened_at
    split
    · rename_i hnone
      exact Triple.raise fun s hs => .inl ⟨rfl, Option.isNone_iff_eq_none.mp hnone, hs⟩
    apply Triple.bind (Q := fun _ s => s.script = script.drop (k + 1) ∧
      ((fateAt script k).effective = true →
        Gutted reader r profiles id (some { d with usage := none }) s) ∧
          ∃ d', d'.auth = d.auth ∧ Gutted reader r profiles id (some d') s)
    · apply Triple.modify
      rintro s ⟨hs, hscript⟩
      split
      · exact ⟨hscript, fun _ => hgone s hs, { d with usage := none }, rfl, hgone s hs⟩
      · rename_i hno
        exact ⟨hscript, fun heffective => absurd heffective hno, d, rfl, hs⟩
    · intro _
      apply end_problem.weaken (fun _ hs => hs)
      · rintro _ s ⟨hdone, hscript, hs, _⟩
        refine ⟨fun _ => hdone, hs ?_, hscript⟩
        rw [hdone]
        rfl
      · rintro stop s ⟨hstop, hfate, _, _, hs⟩
        exact .inr ⟨hstop, hfate, hs⟩
  · intro problem hkind
    apply Triple.pure
    intro s hs
    have hproblem : problem = .notFound := of_decide_eq_true hkind
    cases hs with
    | inl habsent =>
      obtain ⟨_, hnone, hs, hscript⟩ := habsent
      have hsame : { d with usage := none } = d := by
        rw [← hnone]
      rw [hsame, hnone]
      exact ⟨(fun hsome => by cases hsome), hs, hscript⟩
    | inr hfailed => exact absurd (congrArg Stop.raised hproblem) hfailed.1
  · intro stop s hs hrest
    cases hs with
    | inl habsent => exact absurd (hrest .notFound habsent.1) (by decide)
    | inr hfailed => exact hfailed.2

/-- The sign-in goes: of the profiles, those with another id keep theirs. -/
theorem unlinkAuth_at {id : String}
    (hprofiles : ∀ p ∈ profiles, p ∈ r.profiles ∧ p.id ≠ id) (hauth : d.auth.isSome = true) :
    Triple (fun s => Gutted reader r r.profiles id (some d) s ∧ s.script = script.drop k)
      (unlinkAuth id)
      (fun _ s => fateAt script k = .done ∧
        Gutted reader r profiles id (some { d with auth := none }) s ∧
          s.script = script.drop (k + 1))
      (fun _ s => fateAt script k ≠ .done ∧ ((fateAt script k).effective = false →
        Gutted reader r r.profiles id (some d) s)) := by
  unfold unlinkAuth
  apply opened_at
  have hnone : ¬ (d.auth.isNone = true) := by
    intro hnone
    rw [Option.isNone_iff_eq_none.mp hnone] at hauth
    cases hauth
  rw [if_neg hnone]
  apply Triple.bind (Q := fun _ s => s.script = script.drop (k + 1) ∧
    ((fateAt script k).effective = true →
      Gutted reader r profiles id (some { d with auth := none }) s) ∧
    ((fateAt script k).effective = false → Gutted reader r r.profiles id (some d) s))
  · apply Triple.modify
    rintro s ⟨hs, hscript⟩
    split
    · rename_i heffective
      have hfewer : Gutted reader r profiles id (some d) s :=
        ⟨hs.file, fun p hp => hs.stored p (hprofiles p hp).1, hs.directory⟩
      refine ⟨hscript, fun _ => hfewer.setDirectory ?_, fun hno => ?_⟩
      · intro p hp hid
        exact absurd hid (hprofiles p hp).2
      · rw [heffective] at hno
        cases hno
    · rename_i hno
      exact ⟨hscript, fun heffective => absurd heffective hno, fun _ => hs⟩
  · intro _
    apply end_spec.weaken (fun _ hs => hs)
    · rintro _ s ⟨hdone, hscript, hs, _⟩
      refine ⟨hdone, hs ?_, hscript⟩
      rw [hdone]
      rfl
    · rintro stop s ⟨hfate, _, _, hs⟩
      exact ⟨hfate, hs⟩

theorem removeEmptyDirectory_at {id : String}
    (hprofiles : ∀ p ∈ profiles, p.id ≠ id) (hauth : d.auth = none) (husage : d.usage = none) :
    Triple (fun s => Gutted reader r profiles id (some d) s ∧ s.script = script.drop k)
      (removeEmptyDirectory id)
      (fun _ s => d.leftovers = 0 ∧ Gutted reader r profiles id none s ∧
        s.script = script.drop (k + 1))
      (fun _ _ => d.leftovers = 0 → fateAt script k ≠ .done) := by
  unfold removeEmptyDirectory
  apply opened_at
  have hempty : d.isEmpty = decide (d.leftovers = 0) := by
    unfold Directory.isEmpty
    rw [hauth, husage]
    rfl
  rw [hempty]
  by_cases hleft : d.leftovers = 0
  · rw [if_neg (not_not.mpr (decide_eq_true hleft))]
    apply Triple.bind (Q := fun _ s => s.script = script.drop (k + 1) ∧
      ((fateAt script k).effective = true → Gutted reader r profiles id none s))
    · apply Triple.modify
      rintro s ⟨hs, hscript⟩
      split
      · refine ⟨hscript, fun _ => hs.setDirectory ?_⟩
        intro p hp hid
        exact absurd hid (hprofiles p hp)
      · rename_i hno
        exact ⟨hscript, fun heffective => absurd heffective hno⟩
    · intro _
      apply end_spec.weaken (fun _ hs => hs)
      · rintro _ s ⟨hdone, hscript, hs⟩
        refine ⟨hleft, hs ?_, hscript⟩
        rw [hdone]
        rfl
      · exact fun _ _ hs _ => hs.1
  · rw [if_pos (by simpa using hleft)]
    exact Triple.raise fun _ _ hzero => absurd hzero hleft

/-- The registry is replaced by one whose profiles have their sign-ins. -/
theorem saveRegistry_at {r' : Registry} (hvalid : r'.Valid) {d : Option (Directory Raw)} :
    Triple (fun s => Gutted reader r r'.profiles id d s ∧ s.script = script.drop k)
      (saveRegistry r') (fun _ => Holds reader r')
      (fun _ s => fateAt script k ≠ .done ∧
        ((fateAt script k).effective = true → Holds reader r' s)) := by
  unfold saveRegistry
  apply Triple.bind (Q := fun fate s => fate = fateAt script k ∧
    Gutted reader r r'.profiles id d s ∧ s.script = script.drop (k + 1))
  · exact (access_at gutted_settled).raises fun _ _ h => h.elim
  intro fate
  apply Triple.of_pure
  rintro rfl
  unfold change
  apply Triple.bind (Q := fun _ s => (fateAt script k).effective = true → Holds reader r' s)
  · apply Triple.modify
    rintro s ⟨hs, _⟩ heffective
    rw [if_pos heffective]
    exact ⟨.inl rfl, hvalid, hs.stored⟩
  intro _
  apply Triple.bind (Q := fun _ s => (fateAt script k).effective = true → Holds reader r' s)
  · apply Triple.modify
    intro s hs
    split
    · exact hs
    · exact hs
  · intro _
    apply end_spec.weaken (fun _ hs => hs)
    · rintro _ s ⟨hdone, hs⟩
      apply hs
      rw [hdone]
      rfl
    · exact fun _ _ hs => hs

def Stop.isUnreadable (stop : Stop) : Prop :=
  ∃ problem, stop = .raised problem ∧ Files.isUnreadable problem = true

theorem keeps_currentCredential_at (h : Settled P) :
    Triple (fun s => P s ∧ s.script = script.drop k) (currentCredential reader)
      (fun _ s => P s ∧ s.script = script.drop (k + 1))
      (fun stop s => stop.isUnreadable ∧ P s ∧ s.script = script.drop (k + 1)) := by
  unfold currentCredential
  apply Triple.bind (Q := fun _ s => P s ∧ s.script = script.drop (k + 1))
  · exact (access_at h).weaken (fun _ hs => hs) (fun _ _ hs => hs.2) fun _ _ hs => hs.elim
  intro _
  apply Triple.bind (Q := fun _ s => P s ∧ s.script = script.drop (k + 1))
  · exact Triple.read fun s hs => hs
  intro native
  apply Triple.bind (Q := fun _ s => P s ∧ s.script = script.drop (k + 1))
  · unfold readBounded
    split
    · exact Triple.raise fun s hs => ⟨⟨.notFound, rfl, rfl⟩, hs⟩
    split
    · exact Triple.raise fun s hs => ⟨⟨.profile _, rfl, rfl⟩, hs⟩
    · exact Triple.pure fun s hs => hs
  intro raw
  apply Triple.bind (Q := fun _ s => P s ∧ s.script = script.drop (k + 1))
  · unfold accountIdOf
    split
    · exact Triple.pure fun s hs => hs
    · exact Triple.raise fun s hs => ⟨⟨.profile _, rfl, rfl⟩, hs⟩
  · exact fun accountId => Triple.pure fun s hs => hs

theorem listProfiles_at (hreader : reader.Lawful) {Q : (String → Option (Directory Raw)) → Prop} :
    Triple (fun s => (Holds reader r s ∧ Q s.directories) ∧ s.script = script)
      (listProfiles reader)
      (fun listed s => listed.map (·.1) = r.profiles ∧ (Holds reader r s ∧ Q s.directories) ∧
        s.script = script.drop 1) (fun _ _ => False) := by
  unfold listProfiles
  apply Triple.bind (Q := fun found s => found = r ∧
    (Holds reader r s ∧ Q s.directories) ∧ s.script = script.drop 0)
  · intro s hs
    have hfound : registry reader s = (.ok r, s) := registry_run hreader hs.1.1
    rw [hfound]
    constructor
    · intro found t heq
      cases heq
      exact ⟨rfl, hs⟩
    · intro stop t heq
      cases heq
  intro found
  apply Triple.of_pure
  rintro rfl
  have hread : Triple (fun s => (Holds reader found s ∧ Q s.directories) ∧ s.script = script.drop 0)
      (do
        let current ← currentCredential reader
        pure (some current.2))
      (fun _ s => (Holds reader found s ∧ Q s.directories) ∧ s.script = script.drop 1)
      (fun stop s => stop.isUnreadable ∧ (Holds reader found s ∧ Q s.directories) ∧
        s.script = script.drop 1) :=
    Triple.bind (keeps_currentCredential_at (holds_settled.and_directories Q))
      fun current => Triple.pure fun s hs => hs
  apply Triple.bind (Q := fun _ s => (Holds reader found s ∧ Q s.directories) ∧
    s.script = script.drop 1)
  · apply catching_spec hread
    · intro problem _
      exact Triple.pure fun s hs => hs.2
    · rintro stop s ⟨⟨problem, hstop, hunreadable⟩, _⟩ hrest
      rw [hrest problem hstop] at hunreadable
      cases hunreadable
  · intro current
    apply Triple.pure
    intro s hs
    refine ⟨?_, hs⟩
    rw [List.map_map]
    exact List.map_id' _

theorem Registry.Valid.mem_erase (h : r.Valid) {p q : Profile} (hp : p ∈ r.profiles) :
    q ∈ r.profiles.erase p ↔ q ∈ r.profiles ∧ q.id ≠ p.id := by
  have hnodup : r.profiles.Nodup := List.Nodup.of_map _ h.ids
  rw [hnodup.mem_erase_iff]
  constructor
  · rintro ⟨hne, hq⟩
    exact ⟨hq, fun hid => hne (List.inj_on_of_nodup_map h.ids hq hp hid)⟩
  · rintro ⟨hq, hid⟩
    exact ⟨fun heq => hid (congrArg Profile.id heq), hq⟩

theorem Registry.Valid.remove (h : r.Valid) (hp : p ∈ r.profiles) :
    Registry.Valid ⟨if r.activeProfileId = some p.id then none else r.activeProfileId,
      r.profiles.erase p⟩ where
  profiles := fun q hq => h.profiles q (List.mem_of_mem_erase hq)
  count := (List.erase_sublist).length_le.trans h.count
  ids := (List.erase_sublist.map _).nodup h.ids
  accountIds := (List.erase_sublist.map _).nodup h.accountIds
  active := by
    intro id hid
    dsimp only at hid ⊢
    split at hid
    · cases hid
    rename_i hactive
    obtain ⟨q, hq, hqid⟩ := List.mem_map.mp (h.active id hid)
    have hne : q.id ≠ p.id := by
      intro heq
      rw [← heq, hqid] at hactive
      exact hactive hid
    rw [← hqid]
    exact List.mem_map_of_mem ((h.mem_erase hp).mpr ⟨hq, hne⟩)

def deletion (r : Registry) (p : Profile) : Routine Raw Unit := do
  catching (· = .notFound) (unlinkUsage p.id) (pure ())
  unlinkAuth p.id
  removeEmptyDirectory p.id
  saveRegistry ⟨if r.activeProfileId = some p.id then none else r.activeProfileId,
    r.profiles.erase p⟩

/-- It ends with a registry without the profile. Where it stops before, the sign-ins of all listed
profiles are there, unless it is cut off after the sign-in is gone. -/
theorem deletion_spec (hvalid : r.Valid) (hp : p ∈ r.profiles) :
    Triple
      (fun s => (Holds reader r s ∧ s.directories p.id = some d) ∧ s.script = script.drop 1)
      (deletion r p)
      (fun _ s => d.leftovers = 0 ∧ Holds reader
        ⟨if r.activeProfileId = some p.id then none else r.activeProfileId, r.profiles.erase p⟩ s)
      (fun _ s => ¬ ((∀ k, fateAt script k = .done) ∧ d.leftovers = 0) ∧
        (((d.usage.isSome = true → fateAt script 1 = .done) →
          (fateAt script 2).effective = true →
            fateAt script 2 = .done ∧ d.leftovers = 0 ∧ fateAt script 3 = .done ∧
              (fateAt script 4).effective = true) → Good reader s)) := by
  have hrest : ∀ q ∈ r.profiles.erase p, q ∈ r.profiles ∧ q.id ≠ p.id :=
    fun q hq => (hvalid.mem_erase hp).mp hq
  have hgood : ∀ d' s, Gutted reader r r.profiles p.id d' s → Good reader s :=
    fun d' s hs => ⟨r, hs.file, hvalid, hs.stored⟩
  intro s hs
  obtain ⟨⟨hholds, hd⟩, hscript⟩ := hs
  obtain ⟨x, raw, hx, hauth, _⟩ := hholds.stored p hp
  rw [hd] at hx
  cases hx
  have hpresent : ({ d with usage := none } : Directory Raw).auth.isSome = true := by
    show d.auth.isSome = true
    rw [hauth]
    rfl
  unfold deletion
  refine Triple.bind (P := fun s => Gutted reader r r.profiles p.id (some d) s ∧
      s.script = script.drop 1)
    (Q := fun _ s => (d.usage.isSome = true → fateAt script 1 = .done) ∧
      Gutted reader r r.profiles p.id (some { d with usage := none }) s ∧
        s.script = script.drop 2) ?_ ?_ s ⟨⟨hholds.file, hholds.stored, hd⟩, hscript⟩
  · apply unlinkUsage_at.weaken (fun _ h => h) (fun _ _ h => h)
    rintro _ t ⟨hfate, d', _, ht⟩
    exact ⟨fun hall => hfate (hall.1 1), fun _ => hgood _ t ht⟩
  intro _
  apply Triple.of_pure
  intro husage
  apply Triple.bind (Q := fun _ s => fateAt script 2 = .done ∧
    Gutted reader r (r.profiles.erase p) p.id (some { d with auth := none, usage := none }) s ∧
      s.script = script.drop 3)
  · apply Triple.weaken (unlinkAuth_at hrest hpresent) (fun _ h => h) (fun _ _ h => h)
    rintro _ t ⟨hfate, ht⟩
    refine ⟨fun hall => hfate (hall.1 2), fun hfinish => ?_⟩
    cases heffective : (fateAt script 2).effective with
    | false => exact hgood _ t (ht heffective)
    | true => exact absurd (hfinish husage heffective).1 hfate
  intro _
  apply Triple.of_pure
  intro hdone
  have heffective : (fateAt script 2).effective = true := by
    rw [hdone]
    rfl
  apply Triple.bind (Q := fun _ s => d.leftovers = 0 ∧
    Gutted reader r (r.profiles.erase p) p.id none s ∧ s.script = script.drop 4)
  · apply Triple.weaken (removeEmptyDirectory_at (fun q hq => (hrest q hq).2) rfl rfl)
      (fun _ h => h) (fun _ _ h => h)
    intro _ t hfate
    refine ⟨fun hall => hfate hall.2 (hall.1 3), fun hfinish => ?_⟩
    obtain ⟨_, hleft, hgone, _⟩ := hfinish husage heffective
    exact absurd hgone (hfate hleft)
  intro _
  apply Triple.of_pure
  intro hleft
  apply Triple.weaken (saveRegistry_at (hvalid.remove hp)) (fun _ h => h) (fun _ _ h => ⟨hleft, h⟩)
  rintro _ t ⟨hfate, ht⟩
  refine ⟨fun hall => hfate (hall.1 4), fun hfinish => ?_⟩
  exact (ht (hfinish husage heffective).2.2.2).good

theorem removeInactive_run (hreader : reader.Lawful) (h : Holds reader r s)
    (hscript : s.script = script) :
    (∃ stop t, removeInactive reader id s = (.error stop, t) ∧ Holds reader r t ∧
      removable reader s id = false) ∨
    ∃ p ∈ r.profiles, p.id = id ∧ removable reader s id = true ∧ ∃ t,
      removeInactive reader id s = deletion r p t ∧ Holds reader r t ∧
        t.directories = s.directories ∧ t.script = script.drop 1 := by
  have hlisting := listProfiles_at hreader (Q := (· = s.directories)) s ⟨⟨h, rfl⟩, hscript⟩
  cases hlisted : listProfiles reader s with
  | mk result t =>
  cases result with
  | error stop => exact (hlisting.2 stop t hlisted).elim
  | ok listed =>
    obtain ⟨hprofiles, ⟨ht, hdirectories⟩, hdrop⟩ := hlisting.1 listed t hlisted
    have hremovable : removable reader s id =
        ((listed.any fun item => decide (item.1.id = id)) &&
          !listed.any fun item => decide (item.1.id = id) && item.2) := by
      unfold removable
      rw [hlisted]
    -- the ids of the listing are those of the registry
    have hany : (listed.any fun item => decide (item.1.id = id)) =
        r.profiles.any fun p => decide (p.id = id) := by
      rw [← hprofiles, List.any_map]
      rfl
    unfold removeInactive
    by_cases hid : isProfileId id = true
    · rw [if_neg (not_not.mpr hid), bind_run_of_ok (registry_run hreader h)]
      cases hp : r.profile? id with
      | none =>
        left
        refine ⟨_, s, rfl, h, ?_⟩
        have habsent : (r.profiles.any fun p => decide (p.id = id)) = false :=
          List.any_eq_false.mpr (List.find?_eq_none.mp hp)
        rw [hremovable, hany, habsent]
        rfl
      | some p =>
        obtain ⟨hmem, hpid⟩ := profile?_some hp
        have hpresent : (r.profiles.any fun p => decide (p.id = id)) = true :=
          List.any_eq_true.mpr ⟨p, hmem, decide_eq_true hpid⟩
        rw [hany, hpresent] at hremovable
        dsimp only
        rw [bind_run_of_ok hlisted]
        cases hactive : listed.any fun item => decide (item.1.id = id) && item.2 with
        | true =>
          left
          rw [hactive] at hremovable
          exact ⟨_, t, rfl, ht, hremovable⟩
        | false =>
          right
          rw [hactive] at hremovable
          subst hpid
          exact ⟨p, hmem, rfl, hremovable, t, rfl, ht, hdirectories, hdrop⟩
    · left
      rw [if_pos hid]
      refine ⟨_, s, rfl, h, ?_⟩
      have habsent : (r.profiles.any fun p => decide (p.id = id)) = false := by
        apply List.any_eq_false.mpr
        intro p hp heq
        exact hid (of_decide_eq_true heq ▸ (h.valid.profiles p hp).id)
      rw [hremovable, hany, habsent]
      rfl

theorem fateAt_nil (k : Nat) : fateAt ([] : List (Moment Raw)) k = .done := by
  unfold fateAt
  rw [List.getD_nil]
  rfl

theorem removeInactive_good (hreader : reader.Lawful) (h : Good reader s)
    (hscript : s.script = script) (hcompletes : Completes reader s id script) :
    Good reader (removeInactive reader id s).2 := by
  obtain ⟨r, h⟩ := h
  have hself : { s with script := script } = s := by
    rw [← hscript]
  rw [Completes, hself] at hcompletes
  cases removeInactive_run hreader h hscript with
  | inl hrefused =>
    obtain ⟨stop, t, hrun, ht, _⟩ := hrefused
    rw [hrun]
    exact ht.good
  | inr hallowed =>
    obtain ⟨p, hp, rfl, hremovable, t, hrun, ht, hdirectories, hdrop⟩ := hallowed
    obtain ⟨d, raw, hd, _⟩ := h.stored p hp
    have hfinish := hcompletes hremovable
    rw [hd] at hfinish
    have hdeletion := deletion_spec h.valid hp t ⟨⟨ht, hdirectories ▸ hd⟩, hdrop⟩
    rw [hrun]
    cases hresult : deletion r p t with
    | mk result u =>
    cases result with
    | ok _ => exact (hdeletion.1 _ u hresult).2.good
    | error stop =>
      apply (hdeletion.2 stop u hresult).2
      intro husage heffective
      obtain ⟨hdone, hleft, hrest⟩ := hfinish husage heffective
      exact ⟨hdone, of_decide_eq_true hleft, hrest⟩

/-! ## Temporary files -/

def Tidy (s : State Raw) : Prop := ∀ id d, s.directories id = some d → d.leftovers = 0

/-- No temporary file stays behind. -/
def Clean (script : List (Moment Raw)) : Prop := ∀ m ∈ script, m.fate.leftover = false

instance decidableClean (script : List (Moment Raw)) : Decidable (Clean script) :=
  inferInstanceAs (Decidable (∀ m ∈ script, _))

def Swept (s : State Raw) : Prop := Tidy s ∧ Clean s.script

theorem tidy_settled : Settled (Tidy : State Raw → Prop) := fun _ _ _ _ h => h

theorem swept_settled : Settled (Swept : State Raw → Prop) :=
  fun _ _ _ hscript h => ⟨h.1, fun m hm => h.2 m (hscript.subset hm)⟩

theorem Tidy.setDirectory (h : Tidy s) {d : Option (Directory Raw)}
    (hd : ∀ d' ∈ d, d'.leftovers = 0) : Tidy (s.setDirectory id d) := by
  intro i x hx
  change (if i = id then d else s.directories i) = some x at hx
  split at hx
  · exact hd x hx
  · exact h i x hx

theorem access_swept :
    Triple Swept (access : Routine Raw Fate) (fun fate s => fate.leftover = false ∧ Swept s)
      (fun _ => Swept) := by
  intro s hs
  constructor
  · intro fate t ht
    cases ht
    refine ⟨?_, swept_settled s _ _ (List.tail_suffix _) hs⟩
    show (s.script.headD .quiet).fate.leftover = false
    cases hscript : s.script with
    | nil => rfl
    | cons m rest =>
      apply hs.2
      rw [hscript]
      exact List.mem_cons_self
  · intro stop t ht
    cases ht

/-- Only such a write puts temporary files into a directory. -/
theorem keeps_write {edit : Directory Raw → Directory Raw}
    (hedit : ∀ d, (edit d).leftovers = d.leftovers) :
    Keeps Swept (do
      let fate ← access
      let d ← directory id
      changeIn id d edit fate) := by
  apply Triple.bind access_swept
  intro fate
  apply Triple.of_pure
  intro hfate
  apply Triple.bind directory_spec
  intro d
  unfold changeIn
  dsimp only
  rw [hfate]
  apply Triple.bind (Q := fun _ => Swept)
  · apply Triple.modify
    rintro s ⟨hs, hd⟩
    refine ⟨hs.1.setDirectory ?_, hs.2⟩
    intro d' hd'
    cases hd'
    show (if fate.effective then edit d else d).leftovers = 0
    split
    · rw [hedit]
      exact hs.1 id d hd
    · exact hs.1 id d hd
  · exact fun _ => keeps_end

variable {raw : Raw}

theorem sweeps_writeAuth : Keeps Swept (writeAuth id raw) := keeps_write fun _ => rfl

theorem sweeps_createDirectory : Keeps Swept (createDirectory id : Routine Raw Unit) := by
  unfold createDirectory
  refine Keeps.bind swept_settled.access fun fate => keeps_change fun s hs => ?_
  split
  · exact hs
  · refine ⟨hs.1.setDirectory ?_, hs.2⟩
    rintro d hd
    cases hd
    rfl

theorem keeps_saveRegistry (h : Settled I)
    (hregistry : ∀ s file, I s → I { s with registry := file }) : Keeps I (saveRegistry r) := by
  unfold saveRegistry
  exact Keeps.bind h.access fun fate => keeps_change fun s hs => hregistry s _ hs

theorem sweeps_saveRegistry : Keeps Swept (saveRegistry r : Routine Raw Unit) :=
  keeps_saveRegistry swept_settled fun _ _ hs => hs

theorem tidies_saveRegistry : Keeps Tidy (saveRegistry r : Routine Raw Unit) :=
  keeps_saveRegistry tidy_settled fun _ _ hs => hs

theorem keeps_registry : Keeps I (registry reader) := by
  unfold registry
  refine Keeps.bind Keeps.read fun file => ?_
  split
  · exact Keeps.pure
  split
  · exact Keeps.pure
  · exact Keeps.raise

theorem keeps_currentCredential (h : Settled I) : Keeps I (currentCredential reader) :=
  (currentCredential_spec h).returns fun _ _ hs => hs.2

theorem keeps_targetCredential : Keeps I (targetCredential reader id) := by
  unfold targetCredential
  split
  · exact Keeps.raise
  refine Keeps.bind keeps_registry fun r => ?_
  split
  · exact Keeps.raise
  refine Keeps.bind Keeps.read fun d => ?_
  refine Keeps.bind (readBounded_spec.returns fun _ _ hs => hs.2) fun raw => ?_
  refine Keeps.bind (accountIdOf_spec.returns fun _ _ hs => hs.2) fun accountId => ?_
  split
  · exact Keeps.raise
  · exact Keeps.pure

theorem sweeps_refreshCurrentIfSaved : Keeps Swept (refreshCurrentIfSaved reader) := by
  unfold refreshCurrentIfSaved
  refine Keeps.bind ((optionalCredential_spec swept_settled).returns fun _ _ hs => hs.2)
    fun current => ?_
  split
  · exact Keeps.pure
  refine Keeps.bind keeps_registry fun r => ?_
  split
  · exact Keeps.pure
  · exact sweeps_writeAuth

theorem sweeps_preserveCurrentForNewLogin : Keeps Swept (preserveCurrentForNewLogin reader) := by
  unfold preserveCurrentForNewLogin
  refine Keeps.bind (keeps_currentCredential swept_settled) fun current => ?_
  refine Keeps.bind keeps_registry fun r => ?_
  split
  · exact Keeps.raise
  · exact Keeps.bind sweeps_writeAuth fun _ => Keeps.pure

theorem sweeps_saveCurrent {label : String} {response : Json} {drawn : String} :
    Keeps Swept (saveCurrent reader label response drawn) := by
  unfold saveCurrent
  split
  · exact Keeps.raise
  refine Keeps.bind (responsePlan_spec.returns fun _ _ hs => hs.2) fun plan => ?_
  refine Keeps.bind (keeps_currentCredential swept_settled) fun current => ?_
  refine Keeps.bind keeps_registry fun r => ?_
  dsimp only
  split
  · split
    · exact Keeps.raise
    refine Keeps.bind sweeps_createDirectory fun _ => ?_
    refine Keeps.bind sweeps_writeAuth fun _ => ?_
    exact Keeps.bind sweeps_saveRegistry fun _ => Keeps.pure
  · refine Keeps.bind sweeps_writeAuth fun _ => ?_
    exact Keeps.bind sweeps_saveRegistry fun _ => Keeps.pure

theorem sweeps_refreshSavedCredential [DecidableEq Raw] {previous refreshed : Raw} :
    Keeps Swept (refreshSavedCredential reader id previous refreshed) := by
  unfold refreshSavedCredential
  split
  · exact Keeps.pure
  refine Keeps.bind keeps_targetCredential fun target => ?_
  dsimp only
  split
  · exact Keeps.pure
  refine Keeps.bind (accountIdOf_spec.returns fun _ _ hs => hs.2) fun refreshedId => ?_
  split
  · exact Keeps.pure
  split
  · exact Keeps.bind sweeps_writeAuth fun _ => Keeps.pure
  · exact Keeps.pure

theorem sweeps_writeUsageSnapshot {accountId : String} :
    Keeps Swept (writeUsageSnapshot reader id accountId raw) := by
  unfold writeUsageSnapshot
  split
  · exact Keeps.raise
  refine Keeps.bind keeps_targetCredential fun target => ?_
  split
  · exact Keeps.raise
  · exact keeps_write fun _ => rfl

theorem tidies_restoreCredential {raw : Option Raw} :
    Keeps Tidy (restoreCredential reader raw) := by
  have hrest : Keeps Tidy (do
      let r ← registry reader
      let current := raw.bind (credentialAccountId reader)
      saveRegistry ⟨(r.profiles.find? fun p => some p.accountId = current).map (·.id),
        r.profiles⟩) :=
    Keeps.bind keeps_registry fun r => tidies_saveRegistry
  unfold restoreCredential
  split
  · apply Keeps.bind (keeps_catching (keeps_unlinkNative tidy_settled) Keeps.pure)
    exact fun _ => hrest
  · split
    · exact Keeps.bind Keeps.raise fun _ => hrest
    · exact Keeps.bind (keeps_writeNative tidy_settled) fun _ => hrest

theorem tidies_commitActive : Keeps Tidy (commitActive reader id) := by
  unfold commitActive
  refine Keeps.bind keeps_registry fun r => ?_
  split
  · exact Keeps.raise
  · exact tidies_saveRegistry

/-- A file or the directory itself goes. -/
theorem tidies_drop {missing : Directory Raw → Prop} [DecidablePred missing] {stop : Stop}
    {left : Directory Raw → Option (Directory Raw)}
    (hleft : ∀ d, ∀ x ∈ left d, x.leftovers = d.leftovers) :
    Keeps Tidy (do
      let fate ← access
      let d ← directory id
      if missing d then raise stop
      else
        modify fun s => if fate.effective then s.setDirectory id (left d) else s
        fate.end_) := by
  refine Triple.bind (Q := fun _ => Tidy) tidy_settled.access fun fate => ?_
  apply Triple.bind directory_spec
  intro d
  split
  · exact Triple.raise fun _ hs => hs.1
  apply Triple.bind (Q := fun _ => Tidy)
  · apply Triple.modify
    rintro s ⟨hs, hfound⟩
    split
    · exact hs.setDirectory fun x hx => (hleft d x hx).trans (hs id d hfound)
    · exact hs
  · exact fun _ => keeps_end

theorem tidies_unlinkUsage : Keeps Tidy (unlinkUsage id : Routine Raw Unit) :=
  tidies_drop fun d x hx => by cases hx; rfl

theorem tidies_unlinkAuth : Keeps Tidy (unlinkAuth id : Routine Raw Unit) :=
  tidies_drop fun d x hx => by cases hx; rfl

theorem tidies_removeEmptyDirectory :
    Keeps Tidy (removeEmptyDirectory id : Routine Raw Unit) :=
  tidies_drop fun d x hx => by cases hx

theorem tidies_removeInactive : Keeps Tidy (removeInactive reader id) := by
  unfold removeInactive
  split
  · exact Keeps.raise
  refine Keeps.bind keeps_registry fun r => ?_
  split
  · exact Keeps.raise
  have hcredential : Keeps Tidy (do
      let current ← currentCredential reader
      pure (some current.2)) :=
    Keeps.bind (keeps_currentCredential tidy_settled) fun _ => Keeps.pure
  have hlisted : Keeps Tidy (listProfiles reader) := by
    unfold listProfiles
    refine Keeps.bind keeps_registry fun r => ?_
    exact Keeps.bind (keeps_catching hcredential Keeps.pure) fun _ => Keeps.pure
  refine Keeps.bind hlisted fun listed => ?_
  split
  · exact Keeps.raise
  refine Keeps.bind (keeps_catching tidies_unlinkUsage Keeps.pure) fun _ => ?_
  refine Keeps.bind tidies_unlinkAuth fun _ => ?_
  exact Keeps.bind tidies_removeEmptyDirectory fun _ => tidies_saveRegistry

/-- Where no temporary file is left and nothing fails, a removal that is allowed ends as it
should. -/
theorem removeInactive_quiet (hreader : reader.Lawful) (h : Holds reader r s) (htidy : Tidy s)
    (hscript : s.script = []) (hp : p ∈ r.profiles) (hremovable : removable reader s p.id = true) :
    ∃ u r', removeInactive reader p.id s = (.ok (), u) ∧
      (registry reader u).1 = .ok r' ∧ p.id ∉ r'.profiles.map (·.id) := by
  obtain ⟨d, raw, hd, _⟩ := h.stored p hp
  cases removeInactive_run hreader h hscript with
  | inl hrefused =>
    obtain ⟨_, _, _, _, hno⟩ := hrefused
    rw [hremovable] at hno
    cases hno
  | inr hallowed =>
    obtain ⟨q, hq, hid, _, t, hrun, ht, hdirectories, hdrop⟩ := hallowed
    cases List.inj_on_of_nodup_map h.valid.ids hq hp hid
    have hdeletion := deletion_spec h.valid hp t ⟨⟨ht, hdirectories ▸ hd⟩, hdrop⟩
    rw [hrun]
    cases hresult : deletion r p t with
    | mk result u =>
    cases result with
    | ok done =>
      obtain ⟨_, hu⟩ := hdeletion.1 done u hresult
      refine ⟨u, _, rfl, by rw [registry_run hreader hu], ?_⟩
      intro hmem
      obtain ⟨x, hx, heq⟩ := List.mem_map.mp hmem
      exact ((h.valid.mem_erase hp).mp hx).2 heq
    | error stop => exact absurd ⟨fateAt_nil, htidy _ d hd⟩ (hdeletion.2 stop u hresult).1

end

/-! ## Runs -/

section

variable {Raw : Type} {reader : Reader Raw}

/-- A removal that deletes the sign-in gets to its end, and no write leaves a temporary file. -/
def Unbroken (reader : Reader Raw) (s : State Raw) : Step Raw → Prop
  | .saveCurrent _ _ _ script | .refreshCurrentIfSaved script
  | .preserveCurrentForNewLogin script | .refreshSavedCredential _ _ _ script
  | .writeUsageSnapshot _ _ _ script => Clean script
  | .activateCredential .. | .restoreCredential .. | .commitActive .. => True
  | .removeInactive id script => Completes reader s id script

theorem Good.start {s : State Raw} (h : Good reader s) (script : List (Moment Raw)) :
    Good reader { s with script := script } := by
  obtain ⟨r, h⟩ := h
  exact ⟨r, h.same rfl rfl⟩

theorem Good.run {α : Type} {c : Routine Raw α} (hc : Keeps (Good reader) c)
    (script : List (Moment Raw)) {s : State Raw} (h : Good reader s) :
    Good reader (run c script s) :=
  Good.start (hc.state (h.start script)) []

theorem Good.next [DecidableEq Raw] (hreader : reader.Lawful) {s t : State Raw} {step : Step Raw}
    (h : Good reader s) (hunbroken : Unbroken reader s step)
    (hs : next reader s step = some t) : Good reader t := by
  unfold Files.next at hs
  cases step with
  | saveCurrent label response drawn script =>
    dsimp only at hs
    obtain ⟨⟨hid, hnew⟩, hs⟩ := Option.ite_none_right_eq_some.mp hs
    rw [← Option.some.inj hs]
    have hgood : Good reader
        (saveCurrent reader label response drawn { s with script := script }).2 :=
      (saveCurrent_good hreader hid).state
        ⟨h.start script, Option.isNone_iff_eq_none.mp hnew⟩
    exact Good.start hgood []
  | refreshCurrentIfSaved script =>
    rw [← Option.some.inj hs]
    exact h.run (keeps_refreshCurrentIfSaved hreader) script
  | preserveCurrentForNewLogin script =>
    rw [← Option.some.inj hs]
    exact h.run (keeps_preserveCurrentForNewLogin hreader) script
  | refreshSavedCredential id previous refreshed script =>
    rw [← Option.some.inj hs]
    exact h.run (keeps_refreshSavedCredential hreader) script
  | writeUsageSnapshot id accountId raw script =>
    rw [← Option.some.inj hs]
    exact h.run (keeps_writeUsageSnapshot hreader) script
  | activateCredential raw script =>
    rw [← Option.some.inj hs]
    exact h.run (keeps_activateCredential good_settled) script
  | restoreCredential raw script =>
    rw [← Option.some.inj hs]
    exact h.run (keeps_restoreCredential hreader) script
  | commitActive id script =>
    rw [← Option.some.inj hs]
    exact h.run (keeps_commitActive hreader) script
  | removeInactive id script =>
    rw [← Option.some.inj hs]
    exact Good.start (removeInactive_good hreader (h.start script) rfl hunbroken) []

theorem Tidy.run {α : Type} {c : Routine Raw α} (hc : Keeps Tidy c) (script : List (Moment Raw))
    {s : State Raw} (h : Tidy s) : Tidy (run c script s) :=
  hc.state (s := { s with script := script }) h

theorem Tidy.run_clean {α : Type} {c : Routine Raw α} (hc : Keeps Swept c)
    {script : List (Moment Raw)} (hscript : Clean script) {s : State Raw} (h : Tidy s) :
    Tidy (Files.run c script s) :=
  (hc.state (s := { s with script := script }) ⟨h, hscript⟩).1

theorem Tidy.next [DecidableEq Raw] {s t : State Raw} {step : Step Raw} (h : Tidy s)
    (hunbroken : Unbroken reader s step) (hs : next reader s step = some t) : Tidy t := by
  unfold Files.next at hs
  cases step with
  | saveCurrent label response drawn script =>
    dsimp only at hs
    obtain ⟨_, hs⟩ := Option.ite_none_right_eq_some.mp hs
    rw [← Option.some.inj hs]
    exact h.run_clean sweeps_saveCurrent hunbroken
  | refreshCurrentIfSaved script =>
    rw [← Option.some.inj hs]
    exact h.run_clean sweeps_refreshCurrentIfSaved hunbroken
  | preserveCurrentForNewLogin script =>
    rw [← Option.some.inj hs]
    exact h.run_clean sweeps_preserveCurrentForNewLogin hunbroken
  | refreshSavedCredential id previous refreshed script =>
    rw [← Option.some.inj hs]
    exact h.run_clean sweeps_refreshSavedCredential hunbroken
  | writeUsageSnapshot id accountId raw script =>
    rw [← Option.some.inj hs]
    exact h.run_clean sweeps_writeUsageSnapshot hunbroken
  | activateCredential raw script =>
    rw [← Option.some.inj hs]
    exact h.run (keeps_activateCredential tidy_settled) script
  | restoreCredential raw script =>
    rw [← Option.some.inj hs]
    exact h.run tidies_restoreCredential script
  | commitActive id script =>
    rw [← Option.some.inj hs]
    exact h.run tidies_commitActive script
  | removeInactive id script =>
    rw [← Option.some.inj hs]
    exact h.run tidies_removeInactive script

theorem next_script [DecidableEq Raw] {s t : State Raw} {step : Step Raw}
    (hs : next reader s step = some t) : t.script = [] := by
  unfold Files.next at hs
  cases step with
  | saveCurrent label response drawn script =>
    dsimp only at hs
    obtain ⟨_, hs⟩ := Option.ite_none_right_eq_some.mp hs
    rw [← Option.some.inj hs]
    rfl
  | refreshCurrentIfSaved script | preserveCurrentForNewLogin script
  | refreshSavedCredential id previous refreshed script
  | writeUsageSnapshot id accountId raw script | activateCredential raw script
  | restoreCredential raw script | commitActive id script | removeInactive id script =>
    rw [← Option.some.inj hs]
    rfl

theorem good_initial : Good reader (State.initial Raw) := by
  refine ⟨⟨none, []⟩, .inr ⟨rfl, rfl⟩, ⟨?_, Nat.zero_le _, List.nodup_nil, List.nodup_nil, ?_⟩, ?_⟩
  · intro p hp
    cases hp
  · intro id hid
    cases hid
  · intro p hp
    cases hp

/-- In every run whose removals get to their end once the sign-in is deleted and whose writes leave
no temporary file, the registry is read back with accounts that differ, each of its profiles has a
sign-in of its account, and the removal of a profile that is not active finishes if nothing fails
in it. -/
theorem profiles_usable [DecidableEq Raw] (hreader : reader.Lawful)
    {steps : List (Step Raw)} {t : State Raw}
    (hunbroken : Runs.Meets (next reader) (Unbroken reader) (.initial Raw) steps)
    (h : Runs.exec (next reader) (.initial Raw) steps = some t) :
    ∃ r, (registry reader t).1 = .ok r ∧ (r.profiles.map (·.accountId)).Nodup ∧
      ∀ p ∈ r.profiles,
        (∃ raw, (targetCredential reader p.id t).1 = .ok (raw, p.accountId)) ∧
        (removable reader t p.id = true →
          ∃ u r', removeInactive reader p.id t = (.ok (), u) ∧
            (registry reader u).1 = .ok r' ∧ p.id ∉ r'.profiles.map (·.id)) := by
  have hinvariant : Good reader t ∧ Tidy t ∧ t.script = [] := by
    apply Runs.invariant_of_meets _ _ hunbroken h
    · intro s step u hs hstep hu
      exact ⟨hs.1.next hreader hstep hu, hs.2.1.next hstep hu, next_script hu⟩
    · refine ⟨good_initial, ?_, rfl⟩
      intro id d hd
      cases hd
  obtain ⟨⟨r, hr⟩, htidy, hscript⟩ := hinvariant
  refine ⟨r, ?_, hr.valid.accountIds, ?_⟩
  · rw [registry_run hreader hr]
  · intro p hp
    obtain ⟨raw, htarget⟩ := hr.target hreader hp
    refine ⟨⟨raw, ?_⟩, fun hremovable => ?_⟩
    · rw [htarget]
    · exact removeInactive_quiet hreader hr htidy hscript hp hremovable

instance (s : State Raw) (step : Step Raw) : Decidable (Unbroken reader s step) :=
  match step with
  | .removeInactive id script => inferInstanceAs (Decidable (Completes reader s id script))
  | .saveCurrent _ _ _ script | .refreshCurrentIfSaved script
  | .preserveCurrentForNewLogin script | .refreshSavedCredential _ _ _ script
  | .writeUsageSnapshot _ _ _ script => inferInstanceAs (Decidable (Clean script))
  | .activateCredential .. | .restoreCredential .. | .commitActive .. => isTrue trivial

end

def sampleReader : Reader Json where
  size := fun _ => 64
  parse := some
  decode := fun _ => none
  lower := fun s => s

def sampleAuth (accountId : String) : Json :=
  .obj [("auth_mode", .str "chatgpt"), ("tokens", .obj [("account_id", .str accountId)])]

def sampleId : String := String.ofList (List.replicate 32 'a')

def savedProfile : List (Step Json) :=
  [.saveCurrent " Home "
      (.obj [("account", .obj [("type", .str "chatgpt"), ("planType", .str "plus")])])
      sampleId [⟨.done, some (some (sampleAuth "one"))⟩],
    .writeUsageSnapshot sampleId "one" (.obj []) [],
    .activateCredential (sampleAuth "two") []]

/-- A removal that stops before the sign-in is deleted. -/
theorem profiles_usable_stopped :
    (Runs.exec (next sampleReader) (.initial Json)
      (savedProfile ++ [.removeInactive sampleId [.quiet, ⟨.crashed true false, none⟩]])).any
        (fun t => removable sampleReader t sampleId) = true ∧
    ∀ t, Runs.exec (next sampleReader) (.initial Json)
      (savedProfile ++ [.removeInactive sampleId [.quiet, ⟨.crashed true false, none⟩]]) = some t →
      ∃ r, (registry sampleReader t).1 = .ok r ∧ (r.profiles.map (·.accountId)).Nodup ∧
        ∀ p ∈ r.profiles,
          (∃ raw, (targetCredential sampleReader p.id t).1 = .ok (raw, p.accountId)) ∧
          (removable sampleReader t p.id = true →
            ∃ u r', removeInactive sampleReader p.id t = (.ok (), u) ∧
              (registry sampleReader u).1 = .ok r' ∧ p.id ∉ r'.profiles.map (·.id)) :=
  ⟨by decide +kernel, fun _ h => profiles_usable (fun _ _ => rfl) (by decide +kernel) h⟩

/-- The process ends after the sign-in is deleted: the profile is listed, its sign-in is not found,
and it cannot be removed. -/
theorem profile_without_signIn :
    ∃ t r p, Runs.exec (next sampleReader) (.initial Json)
        (savedProfile ++ [.removeInactive sampleId
          [.quiet, .quiet, .quiet, ⟨.crashed false false, none⟩]]) = some t ∧
      (registry sampleReader t).1 = .ok r ∧ p ∈ r.profiles ∧
        (targetCredential sampleReader p.id t).1 = .error (.raised .notFound) ∧
          removable sampleReader t p.id = true ∧
            (removeInactive sampleReader p.id t).1 = .error (.raised .notFound) := by
  have hrun : (Runs.exec (next sampleReader) (.initial Json)
      (savedProfile ++ [.removeInactive sampleId
        [.quiet, .quiet, .quiet, ⟨.crashed false false, none⟩]])).any
      (fun t => (registry sampleReader t).1.toOption.any fun r => r.profiles.any fun p =>
        decide ((registry sampleReader t).1 = .ok r) &&
        decide ((targetCredential sampleReader p.id t).1 = .error (.raised .notFound)) &&
          removable sampleReader t p.id &&
            decide ((removeInactive sampleReader p.id t).1 = .error (.raised .notFound))) =
      true := by
    decide +kernel
  obtain ⟨t, ht, hlost⟩ := (Option.any_eq_true _ _).mp hrun
  obtain ⟨r, _, hlost⟩ := (Option.any_eq_true _ _).mp hlost
  obtain ⟨p, hp, hlost⟩ := List.any_eq_true.mp hlost
  simp only [Bool.and_eq_true, decide_eq_true_eq] at hlost
  obtain ⟨⟨⟨hr, htarget⟩, hremovable⟩, hremoval⟩ := hlost
  exact ⟨t, r, p, ht, hr, hp, htarget, hremovable, hremoval⟩

end CodexBridge.Accounts.Files
