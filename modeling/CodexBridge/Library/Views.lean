import CodexBridge.Library.Dict

/-! # Indexes over a view

A dictionary that holds entries of a changing map, its view. It shows the view while
every entry it holds is current, and covers it while it holds every entry. An index
that forgets entries goes on showing.
-/

namespace Dict

variable {κ α β : Type} [DecidableEq κ] {f : α → β} {d : Dict κ α} {view : κ → Option β}

/-- Each entry held is current. -/
def Shows (d : Dict κ α) (f : α → β) (view : κ → Option β) : Prop :=
  ∀ k a, d.get? k = some a → view k = some (f a)

/-- Each entry of the view is held. -/
def Covers (d : Dict κ α) (f : α → β) (view : κ → Option β) : Prop :=
  ∀ k, (d.get? k).map f = view k

section

variable (h : d.Shows f view)

include h

theorem Shows.set (k : κ) (a : α) :
    (d.set k a).Shows f (Function.update view k (some (f a))) := by
  intro k' b hb
  rw [get?_set] at hb
  by_cases hk : k' = k
  · rw [if_pos hk] at hb
    cases hb
    rw [hk, Function.update_self]
  · rw [if_neg hk] at hb
    rw [Function.update_of_ne hk]
    exact h k' b hb

theorem Shows.erase (k : κ) :
    (d.erase k).Shows f (Function.update view k none) := by
  intro k' b hb
  rw [get?_erase] at hb
  by_cases hk : k' = k
  · rw [if_pos hk] at hb
    cases hb
  · rw [if_neg hk] at hb
    rw [Function.update_of_ne hk]
    exact h k' b hb

theorem Shows.forget (k : κ) : (d.erase k).Shows f view := by
  intro k' b hb
  rw [get?_erase] at hb
  split at hb
  · cases hb
  · exact h k' b hb

theorem Shows.filter (p : κ → Bool) :
    (d.filter fun k _ => p k).Shows f fun k => if p k then view k else none := by
  intro k b hb
  obtain ⟨hget, hp⟩ := (get?_filter_eq_some_iff d _ k b).mp hb
  change (if p k = true then view k else none) = some (f b)
  rw [if_pos hp]
  exact h k b hget

end

theorem Covers.set (h : d.Covers f view) (k : κ) (a : α) :
    (d.set k a).Covers f (Function.update view k (some (f a))) := by
  intro k'
  rw [get?_set]
  by_cases hk : k' = k
  · rw [if_pos hk, hk, Function.update_self]
    rfl
  · rw [if_neg hk, Function.update_of_ne hk]
    exact h k'

theorem Covers.erase (h : d.Covers f view) (k : κ) :
    (d.erase k).Covers f (Function.update view k none) := by
  intro k'
  rw [get?_erase]
  by_cases hk : k' = k
  · rw [if_pos hk, hk, Function.update_self]
    rfl
  · rw [if_neg hk, Function.update_of_ne hk]
    exact h k'

theorem Covers.filter (h : d.Covers f view) (p : κ → Bool) :
    (d.filter fun k _ => p k).Covers f fun k => if p k then view k else none := by
  intro k
  have hk := h k
  rw [get?_filter]
  change _ = if p k = true then view k else none
  rw [← hk]
  cases d.get? k with
  | none => simp
  | some a => by_cases hp : p k = true <;> simp [Option.filter, hp]

end Dict
