import CodexBridge.Library.Dict
import Mathlib.Algebra.Order.Ring.Int
import Mathlib.Algebra.Order.BigOperators.Group.List

/-! # Totals over a dictionary

The sum of a measure over the entries, and what each operation adds to it or
takes from it. A measure may be zero on entries that do not count.
-/

namespace Dict

variable {κ α : Type}

def total (d : Dict κ α) (f : κ → α → Int) : Int := (d.entries.map fun e => f e.1 e.2).sum

@[simp] theorem total_empty (f : κ → α → Int) : (empty : Dict κ α).total f = 0 := rfl

variable {d : Dict κ α}

theorem total_congr {f g : κ → α → Int}
    (h : ∀ k v, (k, v) ∈ d.entries → f k v = g k v) : d.total f = d.total g := by
  unfold total
  rw [List.map_congr_left fun e he => h e.1 e.2 he]

theorem total_nonneg {f : κ → α → Int}
    (h : ∀ k v, (k, v) ∈ d.entries → 0 ≤ f k v) : 0 ≤ d.total f := by
  refine List.sum_nonneg fun n hn => ?_
  obtain ⟨e, he, rfl⟩ := List.mem_map.mp hn
  exact h e.1 e.2 he

/-- Distinct keys: taking one entry out of a list takes its measure out of the sum. -/
theorem sum_filter_ne [DecidableEq κ] {xs : List (κ × α)} (hn : (xs.map Prod.fst).Nodup)
    {k : κ} {v : α} (hm : (k, v) ∈ xs) (f : κ → α → Int) :
    ((xs.filter fun e => e.1 ≠ k).map fun e => f e.1 e.2).sum =
      (xs.map fun e => f e.1 e.2).sum - f k v := by
  induction xs with
  | nil => cases hm
  | cons e xs ih =>
    obtain ⟨hhead, htail⟩ := List.nodup_cons.mp (List.map_cons ▸ hn)
    rw [List.map_cons, List.sum_cons]
    by_cases hk : e.1 = k
    · have hsame : e = (k, v) := by
        rcases List.mem_cons.mp hm with he | he
        · exact he.symm
        · exact absurd (List.mem_map_of_mem (f := Prod.fst) he) (hk ▸ hhead)
      have hrest : (xs.filter fun e => e.1 ≠ k) = xs := by
        refine List.filter_eq_self.mpr fun e' he' => ?_
        have hne : e'.1 ≠ k := by
          rintro rfl
          exact hhead (hk ▸ List.mem_map_of_mem (f := Prod.fst) he')
        simpa using hne
      rw [List.filter_cons_of_neg (by simpa using hk), hrest, hsame]
      change _ = f k v + _ - f k v
      omega
    · have hm' : (k, v) ∈ xs := by
        rcases List.mem_cons.mp hm with he | he
        · rw [← he] at hk
          exact absurd rfl hk
        · exact he
      rw [List.filter_cons_of_pos (by simpa using hk), List.map_cons, List.sum_cons,
        ih htail hm']
      omega

variable [DecidableEq κ]

theorem total_erase {k : κ} {v : α} (h : d.get? k = some v)
    (f : κ → α → Int) : (d.erase k).total f = d.total f - f k v :=
  sum_filter_ne d.nodup ((d.get?_eq_some_iff k v).mp h) f

theorem total_set_of_none {k : κ} (h : d.get? k = none) (v : α)
    (f : κ → α → Int) : (d.set k v).total f = d.total f + f k v := by
  have hk : k ∉ d.entries.map Prod.fst := by
    intro hm
    obtain ⟨⟨k', w⟩, hw, rfl⟩ := List.mem_map.mp hm
    exact (d.get?_eq_none_iff _).mp h w hw
  unfold total set
  rw [dif_neg hk]
  simp

/-- Replacing a value replaces its measure. -/
theorem total_set_of_some {k : κ} {w : α} (h : d.get? k = some w) (v : α)
    (f : κ → α → Int) : (d.set k v).total f = d.total f - f k w + f k v := by
  have hw := total_erase h f
  have hv := total_erase (d.get?_set_self k v) f
  have hsame : (d.set k v).erase k = d.erase k := by
    have hk : k ∈ d.entries.map Prod.fst :=
      List.mem_map_of_mem (f := Prod.fst) ((d.get?_eq_some_iff k w).mp h)
    unfold erase filter set
    simp only [dif_pos hk, mk.injEq]
    induction d.entries with
    | nil => rfl
    | cons e xs ih =>
      rw [List.map_cons]
      by_cases he : e.1 = k
      · rw [if_pos he, List.filter_cons_of_neg (by simp), List.filter_cons_of_neg (by simp [he])]
        exact ih
      · rw [if_neg he, List.filter_cons_of_pos (by simp [he]),
          List.filter_cons_of_pos (by simp [he]), ih]
  rw [hsame] at hv
  omega

theorem total_erase_of_none {k : κ} (h : d.get? k = none) (f : κ → α → Int) :
    (d.erase k).total f = d.total f := by
  have hall : (d.entries.filter fun e => e.1 ≠ k) = d.entries := by
    refine List.filter_eq_self.mpr fun e he => ?_
    have hne : e.1 ≠ k := by
      rintro rfl
      exact (d.get?_eq_none_iff _).mp h e.2 he
    simpa using hne
  change (((d.entries.filter fun e => e.1 ≠ k).map fun e => f e.1 e.2).sum) = _
  rw [hall]
  rfl

/-- Whatever the key held before, it now counts for the new value. -/
theorem total_set (d : Dict κ α) (k : κ) (v : α) (f : κ → α → Int) :
    (d.set k v).total f = (d.erase k).total f + f k v := by
  cases h : d.get? k with
  | none => rw [total_set_of_none h, total_erase_of_none h]
  | some w => rw [total_set_of_some h, total_erase h]

omit [DecidableEq κ] in
/-- The entries that are kept and those that go make up the whole. -/
theorem total_filter (d : Dict κ α) (p : κ → α → Bool) (f : κ → α → Int) :
    (d.filter p).total f =
      d.total f - ((d.entries.filter fun e => !p e.1 e.2).map fun e => f e.1 e.2).sum := by
  have hwhole := ((List.filter_append_perm (fun e : κ × α => p e.1 e.2) d.entries).map
    fun e => f e.1 e.2).sum_eq
  rw [List.map_append, List.sum_append] at hwhole
  unfold total filter
  change ((d.entries.filter fun e => p e.1 e.2).map fun e => f e.1 e.2).sum = _
  omega

omit [DecidableEq κ] in
theorem total_one (d : Dict κ α) : d.total (fun _ _ => 1) = d.entries.length := by
  unfold total
  induction d.entries with
  | nil => rfl
  | cons e xs ih =>
    rw [List.map_cons, List.sum_cons, ih, List.length_cons]
    change 1 + (xs.length : Int) = ((xs.length + 1 : Nat) : Int)
    omega

end Dict
