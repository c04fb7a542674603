import Mathlib.Data.List.Range

/-! # The kept end of a numbered log

The items of a log are numbered from 1, and only the last of them are kept. A page holds the
first kept items after a cursor. A reader that passes on the number of the last item it got
misses nothing unless an item after its cursor is no longer kept.
-/

namespace Backlog

variable {α : Type}

def numbered : Nat → List α → List (Nat × α)
  | _, [] => []
  | n, x :: rest => (n + 1, x) :: numbered (n + 1) rest

@[simp] theorem length_numbered (n : Nat) (log : List α) :
    (numbered n log).length = log.length := by
  induction log generalizing n with
  | nil => rfl
  | cons x rest ih => simp [numbered, ih]

theorem map_snd_numbered (n : Nat) (log : List α) : (numbered n log).map Prod.snd = log := by
  induction log generalizing n with
  | nil => rfl
  | cons x rest ih => simp [numbered, ih]

theorem snd_mem_of_mem_numbered {n : Nat} {log : List α} {e : Nat × α} (h : e ∈ numbered n log) :
    e.2 ∈ log := by
  have hmem : e.2 ∈ (numbered n log).map Prod.snd := List.mem_map_of_mem h
  rw [map_snd_numbered] at hmem
  exact hmem

theorem numbered_append (n : Nat) (a b : List α) :
    numbered n (a ++ b) = numbered n a ++ numbered (n + a.length) b := by
  induction a generalizing n with
  | nil => rfl
  | cons x rest ih =>
    rw [List.cons_append, numbered, numbered, ih, List.length_cons, List.cons_append]
    congr 3
    omega

theorem numbered_drop (n d : Nat) (log : List α) :
    (numbered n log).drop d = numbered (n + d) (log.drop d) := by
  induction d generalizing n log with
  | zero => rfl
  | succ d ih =>
    cases log with
    | nil => rfl
    | cons x rest =>
      rw [numbered, List.drop_succ_cons, List.drop_succ_cons, ih]
      congr 1
      omega

theorem lt_of_mem_numbered {n : Nat} {log : List α} {e : Nat × α} (h : e ∈ numbered n log) :
    n < e.1 ∧ e.1 ≤ n + log.length := by
  induction log generalizing n with
  | nil => cases h
  | cons x rest ih =>
    cases List.mem_cons.mp h with
    | inl heq =>
      rw [heq, List.length_cons]
      omega
    | inr hrest =>
      have hbounds := ih hrest
      rw [List.length_cons]
      omega

theorem filter_numbered (n cursor : Nat) (log : List α) (h : n ≤ cursor) :
    (numbered n log).filter (fun e => cursor < e.1) = numbered cursor (log.drop (cursor - n)) := by
  induction log generalizing n with
  | nil =>
    rw [List.drop_nil]
    rfl
  | cons x rest ih =>
    rw [numbered]
    by_cases heq : n = cursor
    · have hall : ∀ e ∈ (n + 1, x) :: numbered (n + 1) rest, cursor < e.1 := by
        intro e he
        cases List.mem_cons.mp he with
        | inl hfirst =>
          rw [hfirst]
          dsimp only
          omega
        | inr hrest =>
          have hlt := (lt_of_mem_numbered hrest).1
          omega
      rw [List.filter_eq_self.mpr (by simpa using hall), heq, Nat.sub_self]
      rfl
    · rw [List.filter_cons_of_neg (by simp; omega), ih (n + 1) (by omega),
        show cursor - n = (cursor - (n + 1)) + 1 by omega, List.drop_succ_cons]

theorem take_numbered (n count : Nat) (log : List α) :
    (numbered n log).take count = numbered n (log.take count) := by
  induction count generalizing n log with
  | zero => rfl
  | succ count ih =>
    cases log with
    | nil => rfl
    | cons x rest => rw [numbered, List.take_succ_cons, List.take_succ_cons, numbered, ih]

/-- The number of the last item, or the cursor if there is none. -/
theorem getLast?_numbered (n : Nat) (log : List α) :
    ((numbered n log).getLast?.map Prod.fst).getD n = n + log.length := by
  induction log generalizing n with
  | nil => rfl
  | cons x rest ih =>
    rw [numbered]
    cases rest with
    | nil => rfl
    | cons y tail =>
      have hlast := ih (n + 1)
      rw [numbered] at hlast ⊢
      rw [List.getLast?_cons_cons]
      rw [List.length_cons] at hlast
      rw [List.length_cons, List.length_cons]
      cases hl : ((n + 1 + 1, y) :: numbered (n + 1 + 1) tail).getLast? with
      | none => simp at hl
      | some e =>
        rw [hl] at hlast
        simp only [Option.map_some, Option.getD_some] at hlast ⊢
        omega

def after (kept : List (Nat × α)) (cursor : Nat) : List (Nat × α) :=
  kept.filter fun e => cursor < e.1

/-- If the first kept item is not beyond the next one, nothing after the cursor is missing. -/
theorem after_kept {log : List α} {dropped cursor : Nat} {kept : List (Nat × α)}
    (hkept : kept = (numbered 0 log).drop dropped) (h : dropped ≤ cursor) :
    after kept cursor = numbered cursor (log.drop cursor) := by
  have hfirst : kept = numbered dropped (log.drop dropped) := by
    rw [hkept, numbered_drop, Nat.zero_add]
  unfold after
  rw [hfirst, filter_numbered dropped cursor _ h, List.drop_drop]
  congr 2
  omega

end Backlog
