import CodexBridge.Library.JsonText

/-! # A patch in payloads

The changes of a patch go into as few payloads as fit one after the other. While they are
grouped each payload is measured with the widest chunk numbers there can be, so the final
numbers never take it over the limit.
-/

namespace CodexBridge.Runtime

open JsonText

/-! ## Payloads -/

inductive ChangeKind where
  | add | delete | update
  deriving DecidableEq

def ChangeKind.text : ChangeKind → String
  | .add => "add"
  | .delete => "delete"
  | .update => "update"

structure SafeChange where
  path : String
  diff : String
  kind : ChangeKind
  movePath : Option String
  deriving DecidableEq

/-- The payload of `patch.updated`; `chunk` holds `chunk_index` and `chunk_count`, which a
payload that is not part of a sequence lacks. -/
structure PatchPayload where
  runId : String
  changes : List SafeChange
  chunk : Option (Nat × Nat)
  deriving DecidableEq

def jsonMember (separator key : String) (value : Text) : Text :=
  ofChars separator.toList ++ quote (ofChars key.toList) ++ ofChars [':'] ++ value

def jsonString (s : String) : Text := quote (ofChars s.toList)

def SafeChange.json (c : SafeChange) : Text :=
  jsonMember "\x7b" "diff" (jsonString c.diff) ++ jsonMember "," "kind" (jsonString c.kind.text) ++
    (match c.movePath with
      | some path => jsonMember "," "move_path" (jsonString path)
      | none => []) ++
    jsonMember "," "path" (jsonString c.path) ++ ofChars ['\x7d']

def chunkJson (chunk : Option (Nat × Nat)) : Text :=
  match chunk with
  | some (index, count) =>
    jsonMember "," "chunk_count" (ofChars (decimalDigits count)) ++
      jsonMember "," "chunk_index" (ofChars (decimalDigits index))
  | none => []

/-- The payload as `json.dumps` writes it, with its keys sorted and `ensure_ascii=False`. -/
def PatchPayload.json (p : PatchPayload) : Text :=
  jsonMember "\x7b" "changes" (ofChars ['['] ++
    (ofChars [',']).intercalate (p.changes.map SafeChange.json) ++ ofChars [']']) ++
    chunkJson p.chunk ++ jsonMember "," "run_id" (jsonString p.runId) ++ ofChars ['\x7d']

/-- `len(text.encode("utf-8"))` for a text without surrogates. -/
def utf8Bytes (text : Text) : Nat := (text.map fun c => (utf8Width c).getD 0).sum

def eventPayloadBytes (p : PatchPayload) : Nat := utf8Bytes p.json

def reservedMetadata : Nat × Nat := (255, 256)

/-- The loop over the changes; no result where it returns `()`. -/
def groupChanges (runId : String) (maximumBytes : Nat) (groups : List (List SafeChange))
    (current : List SafeChange) : List SafeChange → Option (List (List SafeChange))
  | [] => some (groups ++ [current])
  | change :: rest =>
    if eventPayloadBytes ⟨runId, current ++ [change], some reservedMetadata⟩ ≤ maximumBytes then
      groupChanges runId maximumBytes groups (current ++ [change]) rest
    else if current = [] then none
    else if eventPayloadBytes ⟨runId, [change], some reservedMetadata⟩ ≤ maximumBytes then
      groupChanges runId maximumBytes (groups ++ [current]) [change] rest
    else none

def onlyPayload (maximumBytes : Nat) (p : PatchPayload) : List PatchPayload :=
  if eventPayloadBytes p ≤ maximumBytes then [p] else []

def partitionPatchPayloads (runId : String) (changes : List SafeChange) (maximumBytes : Nat) :
    List PatchPayload :=
  if changes = [] then onlyPayload maximumBytes ⟨runId, [], none⟩
  else
    match groupChanges runId maximumBytes [] [] changes with
    | none => []
    | some [group] => onlyPayload maximumBytes ⟨runId, group, none⟩
    | some groups => groups.mapIdx fun index group => ⟨runId, group, some (index, groups.length)⟩

theorem utf8Bytes_append (a b : Text) : utf8Bytes (a ++ b) = utf8Bytes a + utf8Bytes b := by
  unfold utf8Bytes
  rw [List.map_append, List.sum_append]

theorem utf8Bytes_decimalDigits {n : Nat} (h : n ≤ 256) :
    utf8Bytes (ofChars (decimalDigits n)) ≤ 3 := by
  have hall : ∀ k : Fin 257, utf8Bytes (ofChars (decimalDigits k.val)) ≤ 3 := by decide +kernel
  exact hall ⟨n, by omega⟩

theorem utf8Bytes_reserved : utf8Bytes (ofChars (decimalDigits 255)) = 3 ∧
    utf8Bytes (ofChars (decimalDigits 256)) = 3 := by decide +kernel

/-- Only the numbers differ, or are left out. -/
theorem eventPayloadBytes_le_reserved {runId : String} {changes : List SafeChange}
    {chunk : Option (Nat × Nat)} (h : ∀ n ∈ chunk, n.1 ≤ 256 ∧ n.2 ≤ 256) :
    eventPayloadBytes ⟨runId, changes, chunk⟩ ≤
      eventPayloadBytes ⟨runId, changes, some reservedMetadata⟩ := by
  have hchunk : utf8Bytes (chunkJson chunk) ≤ utf8Bytes (chunkJson (some reservedMetadata)) := by
    cases chunk with
    | none => exact Nat.zero_le _
    | some n =>
      obtain ⟨hindex, hcount⟩ := h n rfl
      have hfirst := utf8Bytes_decimalDigits hindex
      have hsecond := utf8Bytes_decimalDigits hcount
      obtain ⟨hlow, hhigh⟩ := utf8Bytes_reserved
      simp only [chunkJson, reservedMetadata, jsonMember, utf8Bytes_append]
      omega
  simp only [eventPayloadBytes, PatchPayload.json, utf8Bytes_append]
  omega

section

variable {runId : String} {maximumBytes : Nat}

def IsGroup (runId : String) (maximumBytes : Nat) (group : List SafeChange) : Prop :=
  group ≠ [] ∧ eventPayloadBytes ⟨runId, group, some reservedMetadata⟩ ≤ maximumBytes

theorem groupChanges_eq_some {groups result : List (List SafeChange)}
    {current changes : List SafeChange}
    (hgroups : ∀ group ∈ groups, IsGroup runId maximumBytes group)
    (hcurrent : current = [] ∧ changes ≠ [] ∨ IsGroup runId maximumBytes current)
    (h : groupChanges runId maximumBytes groups current changes = some result) :
    result.flatten = groups.flatten ++ current ++ changes ∧
      ∀ group ∈ result, IsGroup runId maximumBytes group := by
  induction changes generalizing groups current with
  | nil =>
    cases h
    rcases hcurrent with ⟨_, hne⟩ | hcurrent
    · exact absurd rfl hne
    refine ⟨by simp, fun group hgroup => ?_⟩
    rcases List.mem_append.mp hgroup with hgroup | hgroup
    · exact hgroups group hgroup
    · exact List.mem_singleton.mp hgroup ▸ hcurrent
  | cons change rest ih =>
    rw [groupChanges] at h
    by_cases hfits : eventPayloadBytes ⟨runId, current ++ [change], some reservedMetadata⟩ ≤
        maximumBytes
    · rw [if_pos hfits] at h
      have hnext : IsGroup runId maximumBytes (current ++ [change]) := ⟨by simp, hfits⟩
      obtain ⟨hflatten, hall⟩ := ih hgroups (.inr hnext) h
      exact ⟨by rw [hflatten]; simp, hall⟩
    rw [if_neg hfits] at h
    obtain ⟨hne, h⟩ := Option.ite_none_left_eq_some.mp h
    obtain ⟨halone, h⟩ := Option.ite_none_right_eq_some.mp h
    have hclosed : IsGroup runId maximumBytes current := by
      rcases hcurrent with ⟨hempty, _⟩ | hcurrent
      · exact absurd hempty hne
      · exact hcurrent
    have hnext : IsGroup runId maximumBytes [change] := ⟨by simp, halone⟩
    have hmore : ∀ group ∈ groups ++ [current], IsGroup runId maximumBytes group := by
      intro group hgroup
      rcases List.mem_append.mp hgroup with hgroup | hgroup
      · exact hgroups group hgroup
      · exact List.mem_singleton.mp hgroup ▸ hclosed
    obtain ⟨hflatten, hall⟩ := ih hmore (.inr hnext) h
    exact ⟨by rw [hflatten]; simp, hall⟩

theorem groupChanges_eq_none {groups : List (List SafeChange)} {current changes : List SafeChange}
    (h : groupChanges runId maximumBytes groups current changes = none) :
    ∃ change ∈ changes,
      maximumBytes < eventPayloadBytes ⟨runId, [change], some reservedMetadata⟩ := by
  induction changes generalizing groups current with
  | nil => cases h
  | cons change rest ih =>
    rw [groupChanges] at h
    by_cases hfits : eventPayloadBytes ⟨runId, current ++ [change], some reservedMetadata⟩ ≤
        maximumBytes
    · rw [if_pos hfits] at h
      obtain ⟨c, hc, hlarge⟩ := ih h
      exact ⟨c, List.mem_cons_of_mem change hc, hlarge⟩
    rw [if_neg hfits] at h
    by_cases hempty : current = []
    · rw [hempty, List.nil_append] at hfits
      exact ⟨change, List.mem_cons_self, by omega⟩
    rw [if_neg hempty] at h
    by_cases halone : eventPayloadBytes ⟨runId, [change], some reservedMetadata⟩ ≤
        maximumBytes
    · rw [if_pos halone] at h
      obtain ⟨c, hc, hlarge⟩ := ih h
      exact ⟨c, List.mem_cons_of_mem change hc, hlarge⟩
    · exact ⟨change, List.mem_cons_self, by omega⟩

theorem length_le_length_flatten {groups : List (List SafeChange)}
    (h : ∀ group ∈ groups, IsGroup runId maximumBytes group) :
    groups.length ≤ groups.flatten.length := by
  induction groups with
  | nil => exact Nat.le_refl 0
  | cons group groups ih =>
    have hgroups := ih fun g hg => h g (List.mem_cons_of_mem group hg)
    have hpos := List.length_pos_iff.mpr (h group List.mem_cons_self).1
    rw [List.flatten_cons, List.length_append, List.length_cons]
    omega

end

/-- What holds of the payloads of a patch. -/
structure IsPartition (runId : String) (changes : List SafeChange) (maximumBytes : Nat)
    (payloads : List PatchPayload) : Prop where
  lossless : payloads ≠ [] → (payloads.map PatchPayload.changes).flatten = changes
  bounded : ∀ p ∈ payloads, p.runId = runId ∧ eventPayloadBytes p ≤ maximumBytes
  alone : ∀ p, payloads = [p] → p.chunk = none
  numbered : payloads.length ≠ 1 → ∀ (i : Nat) p, payloads[i]? = some p →
    p.chunk = some (i, payloads.length)
  refused : payloads = [] →
    (∃ change ∈ changes,
      maximumBytes < eventPayloadBytes ⟨runId, [change], some reservedMetadata⟩) ∨
    changes = [] ∧ maximumBytes < eventPayloadBytes ⟨runId, [], none⟩

theorem isPartition_onlyPayload {runId : String} {changes : List SafeChange} {maximumBytes : Nat}
    (h : maximumBytes < eventPayloadBytes ⟨runId, changes, none⟩ → changes = []) :
    IsPartition runId changes maximumBytes (onlyPayload maximumBytes ⟨runId, changes, none⟩) := by
  unfold onlyPayload
  by_cases hfits : eventPayloadBytes ⟨runId, changes, none⟩ ≤ maximumBytes
  · rw [if_pos hfits]
    refine ⟨fun _ => by simp, fun p hp => ?_, fun p hp => ?_, fun hlength => ?_, fun hnil => ?_⟩
    · rw [List.mem_singleton.mp hp]
      exact ⟨rfl, hfits⟩
    · cases hp
      rfl
    · exact absurd rfl hlength
    · cases hnil
  · rw [if_neg hfits]
    have hlarge : maximumBytes < eventPayloadBytes ⟨runId, changes, none⟩ := by omega
    have hempty := h hlarge
    refine ⟨fun hne => absurd rfl hne, fun p hp => ?_, fun p hp => ?_, fun _ i p hp => ?_,
      fun _ => .inr ⟨hempty, hempty ▸ hlarge⟩⟩
    · cases hp
    · cases hp
    · cases hp

theorem isPartition_numbered {runId : String} {maximumBytes : Nat}
    {groups : List (List SafeChange)} (hmany : 2 ≤ groups.length) (hmost : groups.length ≤ 256)
    (hall : ∀ group ∈ groups, IsGroup runId maximumBytes group) :
    IsPartition runId groups.flatten maximumBytes
      (groups.mapIdx fun index group => ⟨runId, group, some (index, groups.length)⟩) := by
  have hlength : (groups.mapIdx fun index group =>
      (⟨runId, group, some (index, groups.length)⟩ : PatchPayload)).length = groups.length :=
    List.length_mapIdx
  constructor
  · intro _
    refine congrArg List.flatten (List.ext_getElem? fun i => ?_)
    rw [List.getElem?_map, List.getElem?_mapIdx, Option.map_map]
    exact Option.map_id'
  · intro p hp
    obtain ⟨i, hi, hp⟩ := List.mem_mapIdx.mp hp
    have hmem : groups[i] ∈ groups := List.getElem_mem hi
    generalize groups[i] = group at hp hmem
    have hreserved : eventPayloadBytes ⟨runId, group, some (i, groups.length)⟩ ≤
        eventPayloadBytes ⟨runId, group, some reservedMetadata⟩ := by
      apply eventPayloadBytes_le_reserved
      intro n hn
      cases hn
      exact ⟨Nat.le_of_lt (Nat.lt_of_lt_of_le hi hmost), hmost⟩
    rw [← hp]
    exact ⟨rfl, Nat.le_trans hreserved (hall group hmem).2⟩
  · intro p hp
    rw [hp, List.length_singleton] at hlength
    omega
  · intro _ i p hp
    rw [hlength]
    rw [List.getElem?_mapIdx, Option.map_eq_some_iff] at hp
    obtain ⟨group, _, rfl⟩ := hp
    rfl
  · intro hnil
    rw [hnil, List.length_nil] at hlength
    omega

theorem partitionPatchPayloads_isPartition (runId : String) (changes : List SafeChange)
    (maximumBytes : Nat) (hmost : changes.length ≤ 256) :
    IsPartition runId changes maximumBytes (partitionPatchPayloads runId changes maximumBytes) := by
  unfold partitionPatchPayloads
  by_cases hempty : changes = []
  · rw [if_pos hempty, hempty]
    exact isPartition_onlyPayload fun _ => rfl
  rw [if_neg hempty]
  cases hgroups : groupChanges runId maximumBytes [] [] changes with
  | none =>
    refine ⟨fun hne => absurd rfl hne, fun p hp => ?_, fun p hp => ?_, fun _ i p hp => ?_,
      fun _ => .inl (groupChanges_eq_none hgroups)⟩
    · cases hp
    · cases hp
    · cases hp
  | some groups =>
    obtain ⟨hflatten, hall⟩ := groupChanges_eq_some
      (fun group hgroup => absurd hgroup List.not_mem_nil) (.inl ⟨rfl, hempty⟩) hgroups
    rw [List.flatten_nil, List.nil_append, List.nil_append] at hflatten
    have hcount := length_le_length_flatten hall
    rw [hflatten] at hcount
    cases groups with
    | nil => exact absurd hflatten.symm hempty
    | cons group others =>
      cases others with
      | nil =>
        rw [List.flatten_cons, List.flatten_nil, List.append_nil] at hflatten
        subst hflatten
        refine isPartition_onlyPayload fun hlarge => ?_
        have hreserved : eventPayloadBytes ⟨runId, group, none⟩ ≤
            eventPayloadBytes ⟨runId, group, some reservedMetadata⟩ :=
          eventPayloadBytes_le_reserved fun n hn => by cases hn
        have hfits := (hall group List.mem_cons_self).2
        omega
      | cons next others =>
        have hmany : 2 ≤ (group :: next :: others).length := by
          rw [List.length_cons, List.length_cons]
          omega
        exact hflatten ▸ isPartition_numbered hmany (by omega) hall

def smallChange : SafeChange := ⟨"a", "", .add, none⟩

theorem smallChanges_isPartition : [smallChange, smallChange].length ≤ 256 ∧
    (partitionPatchPayloads "r" [smallChange, smallChange] 100).length = 2 ∧
    IsPartition "r" [smallChange, smallChange] 100
      (partitionPatchPayloads "r" [smallChange, smallChange] 100) :=
  ⟨by decide, by decide +kernel,
    partitionPatchPayloads_isPartition "r" [smallChange, smallChange] 100 (by decide)⟩

/-- A payload alone has no chunk numbers, and the bytes kept free for them refuse a change that
fits without them. -/
theorem smallChange_unnumbered :
    (partitionPatchPayloads "r" [smallChange] 100).map PatchPayload.chunk = [none] ∧
    eventPayloadBytes ⟨"r", [smallChange], none⟩ ≤ 70 ∧
    partitionPatchPayloads "r" [smallChange] 70 = [] := by
  decide +kernel

end CodexBridge.Runtime
