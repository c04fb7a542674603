import Mathlib.Data.List.Nodup

/-! # Insertion-ordered dictionaries

A dictionary is a list of entries whose keys are distinct; the field says so, so
no lookup can be ambiguous. Assigning to a present key keeps its position and a
new key goes to the end. Every lookup equation follows from what an operation
does to membership of an entry.
-/

/-- Distinct keys with their values, in the order of first assignment. -/
structure Dict (κ α : Type) where
  entries : List (κ × α)
  nodup : (entries.map Prod.fst).Nodup

namespace Dict

variable {κ α β : Type}

/-! ## Operations -/

def empty : Dict κ α := ⟨[], List.nodup_nil⟩

def keys (d : Dict κ α) : List κ := d.entries.map Prod.fst

def values (d : Dict κ α) : List α := d.entries.map Prod.snd

def size (d : Dict κ α) : Nat := d.entries.length

def filter (d : Dict κ α) (p : κ → α → Bool) : Dict κ α :=
  ⟨d.entries.filter fun e => p e.1 e.2, d.nodup.sublist (List.filter_sublist.map Prod.fst)⟩

def drop (d : Dict κ α) (n : Nat) : Dict κ α :=
  ⟨d.entries.drop n, d.nodup.sublist ((List.drop_sublist n d.entries).map Prod.fst)⟩

def mapValues (d : Dict κ α) (f : κ → α → β) : Dict κ β :=
  ⟨d.entries.map fun e => (e.1, f e.1 e.2), by
    have h := d.nodup
    simpa [List.map_map, Function.comp_def] using h⟩

variable (d : Dict κ α)

theorem value_unique {k : κ} {v w : α} (hv : (k, v) ∈ d.entries)
    (hw : (k, w) ∈ d.entries) : v = w := by
  have h := List.inj_on_of_nodup_map d.nodup hv hw rfl
  simpa using h

@[simp] theorem entries_empty : (empty : Dict κ α).entries = [] := rfl

theorem mem_filter (p : κ → α → Bool) (k : κ) (v : α) :
    (k, v) ∈ (d.filter p).entries ↔ (k, v) ∈ d.entries ∧ p k v = true := by
  simp [filter]

theorem mem_mapValues (f : κ → α → β) (k : κ) (w : β) :
    (k, w) ∈ (d.mapValues f).entries ↔ ∃ v, (k, v) ∈ d.entries ∧ f k v = w := by
  simp only [mapValues, List.mem_map, Prod.mk.injEq, Prod.exists]
  constructor
  · rintro ⟨k', v, hm, rfl, rfl⟩
    exact ⟨v, hm, rfl⟩
  · rintro ⟨v, hm, rfl⟩
    exact ⟨k, v, hm, rfl, rfl⟩

@[simp] theorem size_mapValues (f : κ → α → β) : (d.mapValues f).size = d.size :=
  List.length_map _

variable [DecidableEq κ]

def get? (d : Dict κ α) (k : κ) : Option α := (d.entries.find? fun e => e.1 = k).map Prod.snd

def contains (d : Dict κ α) (k : κ) : Bool := (d.get? k).isSome

/-- `d[k] = v`. -/
def set (d : Dict κ α) (k : κ) (v : α) : Dict κ α :=
  if h : k ∈ d.entries.map Prod.fst then
    ⟨d.entries.map fun e => if e.1 = k then (k, v) else e, by
      have hkeys : (d.entries.map fun e => if e.1 = k then (k, v) else e).map Prod.fst =
          d.entries.map Prod.fst := by
        rw [List.map_map]
        refine List.map_congr_left fun e _ => ?_
        by_cases he : e.1 = k <;> simp [he]
      rw [hkeys]
      exact d.nodup⟩
  else
    ⟨d.entries ++ [(k, v)], by
      rw [List.map_append, List.nodup_append]
      refine ⟨d.nodup, List.nodup_singleton _, ?_⟩
      rintro a ha b hb rfl
      simp only [List.map_cons, List.map_nil, List.mem_singleton] at hb
      exact h (hb ▸ ha)⟩

/-- `d.pop(k, None)`. -/
def erase (d : Dict κ α) (k : κ) : Dict κ α := d.filter fun k' _ => k' ≠ k

def update (d : Dict κ α) (k : κ) (f : α → α) : Dict κ α :=
  d.mapValues fun k' v => if k' = k then f v else v

def ofList (xs : List (κ × α)) : Dict κ α := xs.foldl (fun d e => d.set e.1 e.2) empty

theorem get?_eq_some_iff (k : κ) (v : α) : d.get? k = some v ↔ (k, v) ∈ d.entries := by
  unfold get?
  constructor
  · intro h
    obtain ⟨e, he, rfl⟩ := Option.map_eq_some_iff.mp h
    have hk : e.1 = k := by simpa using List.find?_some he
    have hm := List.mem_of_find?_eq_some he
    rwa [← hk]
  intro h
  cases hf : d.entries.find? fun e => e.1 = k with
  | none =>
    have hn := List.find?_eq_none.mp hf (k, v) h
    simp at hn
  | some e =>
    have hk : e.1 = k := by simpa using List.find?_some hf
    have hm : (k, e.2) ∈ d.entries := by
      rw [← hk]
      exact List.mem_of_find?_eq_some hf
    rw [Option.map_some, d.value_unique hm h]

theorem get?_eq_none_iff (k : κ) : d.get? k = none ↔ ∀ v, (k, v) ∉ d.entries := by
  constructor
  · intro h v hv
    rw [(d.get?_eq_some_iff k v).mpr hv] at h
    cases h
  · intro h
    cases hg : d.get? k with
    | none => rfl
    | some v => exact absurd ((d.get?_eq_some_iff k v).mp hg) (h v)

theorem mem_values_iff (v : α) : v ∈ d.values ↔ ∃ k, d.get? k = some v := by
  simp only [values, List.mem_map, get?_eq_some_iff]
  constructor
  · rintro ⟨⟨k, w⟩, hm, rfl⟩
    exact ⟨k, hm⟩
  · rintro ⟨k, hm⟩
    exact ⟨(k, v), hm, rfl⟩

theorem mem_values_of_get? {d : Dict κ α} {k : κ} {v : α} (h : d.get? k = some v) : v ∈ d.values :=
  (d.mem_values_iff v).mpr ⟨k, h⟩

theorem mem_keys_iff (k : κ) : k ∈ d.keys ↔ ∃ v, d.get? k = some v := by
  simp only [keys, List.mem_map, get?_eq_some_iff]
  constructor
  · rintro ⟨⟨k', w⟩, hm, rfl⟩
    exact ⟨w, hm⟩
  · rintro ⟨v, hm⟩
    exact ⟨(k, v), hm, rfl⟩

theorem mem_set (k : κ) (v : α) (k' : κ) (v' : α) :
    (k', v') ∈ (d.set k v).entries ↔ (k' = k ∧ v' = v) ∨ (k' ≠ k ∧ (k', v') ∈ d.entries) := by
  unfold set
  split
  · rename_i hk
    obtain ⟨⟨k₀, w⟩, hw, hkw⟩ := List.mem_map.mp hk
    simp only at hkw
    subst hkw
    simp only [List.mem_map, Prod.exists]
    constructor
    · rintro ⟨a, b, hm, he⟩
      by_cases ha : a = k₀
      · rw [if_pos ha] at he
        cases he
        exact Or.inl ⟨rfl, rfl⟩
      · rw [if_neg ha] at he
        cases he
        exact Or.inr ⟨ha, hm⟩
    · rintro (⟨rfl, rfl⟩ | ⟨hne, hm⟩)
      · exact ⟨k', w, hw, by simp⟩
      · exact ⟨k', v', hm, by simp [hne]⟩
  · rename_i hk
    simp only [List.mem_append, List.mem_singleton, Prod.mk.injEq]
    constructor
    · rintro (hm | ⟨rfl, rfl⟩)
      · refine Or.inr ⟨?_, hm⟩
        rintro rfl
        exact hk (List.mem_map.mpr ⟨_, hm, rfl⟩)
      · exact Or.inl ⟨rfl, rfl⟩
    · rintro (⟨rfl, rfl⟩ | ⟨_, hm⟩)
      · exact Or.inr ⟨rfl, rfl⟩
      · exact Or.inl hm

@[simp] theorem get?_empty (k : κ) : (empty : Dict κ α).get? k = none := rfl

theorem get?_set (k : κ) (v : α) (k' : κ) :
    (d.set k v).get? k' = if k' = k then some v else d.get? k' := by
  apply Option.ext
  intro w
  rw [get?_eq_some_iff, mem_set]
  by_cases hk : k' = k
  · simp [hk, eq_comm]
  · simp [hk, get?_eq_some_iff]

theorem get?_set_cases {d : Dict κ α} {k k' : κ} {v w : α} (h : (d.set k v).get? k' = some w) :
    (k' = k ∧ w = v) ∨ (k' ≠ k ∧ d.get? k' = some w) := by
  rwa [get?_eq_some_iff, mem_set, ← get?_eq_some_iff] at h

@[simp] theorem get?_set_self (k : κ) (v : α) : (d.set k v).get? k = some v := by
  rw [get?_set, if_pos rfl]

theorem get?_set_of_ne {k k' : κ} (v : α) (h : k' ≠ k) : (d.set k v).get? k' = d.get? k' := by
  rw [get?_set, if_neg h]

theorem get?_filter (p : κ → α → Bool) (k : κ) : (d.filter p).get? k = (d.get? k).filter (p k) := by
  apply Option.ext
  intro w
  rw [get?_eq_some_iff, mem_filter, ← get?_eq_some_iff, Option.filter_eq_some_iff]

theorem get?_filter_eq_some_iff (p : κ → α → Bool) (k : κ) (v : α) :
    (d.filter p).get? k = some v ↔ d.get? k = some v ∧ p k v = true := by
  rw [get?_eq_some_iff, mem_filter, get?_eq_some_iff]

theorem get?_mapValues (f : κ → α → β) (k : κ) : (d.mapValues f).get? k = (d.get? k).map (f k) := by
  apply Option.ext
  intro w
  rw [get?_eq_some_iff, mem_mapValues, Option.map_eq_some_iff]
  simp only [get?_eq_some_iff]

theorem get?_erase (k k' : κ) : (d.erase k).get? k' = if k' = k then none else d.get? k' := by
  unfold erase
  rw [get?_filter]
  by_cases hk : k' = k <;> cases d.get? k' <;> simp [hk]

theorem get?_erase_cases {d : Dict κ α} {k k' : κ} {w : α} (h : (d.erase k).get? k' = some w) :
    k' ≠ k ∧ d.get? k' = some w := by
  rw [get?_erase] at h
  exact Option.ite_none_left_eq_some.mp h

theorem get?_update (k : κ) (f : α → α) (k' : κ) :
    (d.update k f).get? k' = if k' = k then (d.get? k').map f else d.get? k' := by
  unfold update
  rw [get?_mapValues]
  by_cases hk : k' = k
  · simp [hk]
  · simp [hk]

theorem get?_update_eq_map (k : κ) (f : α → α) (k' : κ) :
    (d.update k f).get? k' = (d.get? k').map fun v => if k' = k then f v else v :=
  d.get?_mapValues (fun k' v => if k' = k then f v else v) k'

theorem update_update (k : κ) (f g : α → α) :
    (d.update k f).update k g = d.update k fun v => g (f v) := by
  unfold update mapValues
  simp only [List.map_map, mk.injEq]
  apply List.map_congr_left
  intro e _
  simp only [Function.comp]
  split
  · rfl
  · rfl

@[simp] theorem contains_iff (k : κ) : d.contains k = true ↔ ∃ v, d.get? k = some v := by
  simp [contains, Option.isSome_iff_exists]

/-- A new key goes to the end. -/
theorem entries_set_of_none {k : κ} (h : d.get? k = none) (v : α) :
    (d.set k v).entries = d.entries ++ [(k, v)] := by
  have hk : k ∉ d.entries.map Prod.fst := by
    intro hm
    obtain ⟨⟨k', w⟩, hw, rfl⟩ := List.mem_map.mp hm
    exact (d.get?_eq_none_iff _).mp h w hw
  unfold set
  rw [dif_neg hk]

theorem values_set_of_none {k : κ} (h : d.get? k = none) (v : α) :
    (d.set k v).values = d.values ++ [v] := by
  unfold values
  rw [d.entries_set_of_none h v, List.map_append]
  rfl

/-- Distinct keys assigned in order are looked up as in the list. -/
theorem get?_ofList {xs : List (κ × α)} (h : (xs.map Prod.fst).Nodup) (k : κ) (v : α) :
    (ofList xs).get? k = some v ↔ (k, v) ∈ xs := by
  have key : ∀ (ys : List (κ × α)) (d : Dict κ α),
      (d.entries.map Prod.fst ++ ys.map Prod.fst).Nodup →
      ((ys.foldl (fun d e => d.set e.1 e.2) d).get? k = some v ↔
        (k, v) ∈ d.entries ∨ (k, v) ∈ ys) := by
    intro ys
    induction ys with
    | nil =>
      intro d _
      simp [get?_eq_some_iff]
    | cons e ys ih =>
      intro d hd
      have hfresh : e.1 ∉ d.entries.map Prod.fst := by
        rw [List.map_cons, List.nodup_append] at hd
        intro hm
        exact hd.2.2 _ hm _ List.mem_cons_self rfl
      have hset : (d.set e.1 e.2).entries = d.entries ++ [(e.1, e.2)] := by
        simp [set, hfresh]
      rw [List.foldl_cons, ih (d.set e.1 e.2) (by
        rw [hset]
        simpa [List.map_append, List.append_assoc] using hd), hset]
      simp [Prod.ext_iff, or_assoc]
  have hk := key xs empty (by simpa using h)
  simpa [ofList] using hk

theorem size_set_le (k : κ) (v : α) : (d.set k v).size ≤ d.size + 1 := by
  unfold size set
  split
  · rw [List.length_map]
    omega
  · rw [List.length_append]
    exact Nat.le_refl _

theorem size_erase_le (k : κ) : (d.erase k).size ≤ d.size :=
  List.length_filter_le _ _

theorem size_set_of_some {k : κ} {w : α} (h : d.get? k = some w) (v : α) :
    (d.set k v).size = d.size := by
  have hk : k ∈ d.entries.map Prod.fst :=
    List.mem_map.mpr ⟨(k, w), (d.get?_eq_some_iff k w).mp h, rfl⟩
  unfold size set
  rw [dif_pos hk, List.length_map]

theorem size_eq_zero_of_forall (h : ∀ k, d.get? k = none) : d.size = 0 := by
  unfold size
  rw [List.length_eq_zero_iff, List.eq_nil_iff_forall_not_mem]
  rintro ⟨k, v⟩ hm
  exact (d.get?_eq_none_iff k).mp (h k) v hm

theorem size_erase_lt {k : κ} {v : α} (h : d.get? k = some v) : (d.erase k).size < d.size := by
  unfold size erase filter
  refine List.length_filter_lt_length_iff_exists.mpr ⟨(k, v), (d.get?_eq_some_iff k v).mp h, ?_⟩
  simp

end Dict
