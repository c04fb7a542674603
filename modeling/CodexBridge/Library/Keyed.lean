import Mathlib.Data.List.Pairwise
import Mathlib.Data.List.Sort

/-! # Lists in the order of a key

A list whose keys increase holds at most one row under a key, so reading it along any
list of keys that has all of its own gives it back.
-/

namespace Keyed

variable {α β : Type} {key : α → Nat} {xs : List α} {keys : List Nat}

theorem pairwise_insertionSort (h : (xs.map key).Nodup) :
    (xs.insertionSort fun a b => key a ≤ key b).Pairwise fun a b => key a < key b := by
  have htotal : Std.Total fun a b : α => key a ≤ key b := ⟨fun a b => le_total (key a) (key b)⟩
  have htrans : IsTrans α fun a b => key a ≤ key b := ⟨fun a b c => le_trans⟩
  have hsorted := List.pairwise_insertionSort (fun a b => key a ≤ key b) xs
  have hdistinct : (xs.insertionSort fun a b => key a ≤ key b).Pairwise
      fun a b => key a ≠ key b :=
    (List.perm_insertionSort _ xs).symm.pairwise (List.pairwise_map.mp h) Ne.symm
  refine (hsorted.and hdistinct).imp fun {a b} hab => ?_
  exact lt_of_le_of_ne hab.1 hab.2

theorem find?_eq_some (h : xs.Pairwise fun a b => key a < key b) {x : α} {n : Nat} (hx : x ∈ xs)
    (hn : key x = n) : xs.find? (fun y => key y = n) = some x := by
  induction xs with
  | nil => cases hx
  | cons y rest ih =>
    obtain ⟨hfirst, hrest⟩ := List.pairwise_cons.mp h
    rw [List.find?_cons]
    rcases List.mem_cons.mp hx with he | hx
    · rw [← he]
      simp [hn]
    have hlt := hfirst x hx
    have hne : ¬ key y = n := by omega
    simp only [hne, decide_false]
    exact ih hrest hx

theorem filterMap_find? (h : xs.Pairwise fun a b => key a < key b)
    (hkeys : keys.Pairwise (· < ·)) (hcover : ∀ x ∈ xs, key x ∈ keys) (g : α → Option β) :
    keys.filterMap (fun n => (xs.find? fun x => key x = n).bind g) = xs.filterMap g := by
  induction keys generalizing xs with
  | nil =>
    cases xs with
    | nil => rfl
    | cons x rest => exact absurd (hcover x List.mem_cons_self) List.not_mem_nil
  | cons n keys ih =>
    obtain ⟨hfirst, hrest⟩ := List.pairwise_cons.mp hkeys
    cases xs with
    | nil => simp
    | cons x rest =>
      obtain ⟨hx, hxs⟩ := List.pairwise_cons.mp h
      have hlater : ∀ y ∈ rest, key y ∈ keys := by
        intro y hy
        have hlt := hx y hy
        rcases List.mem_cons.mp (hcover x List.mem_cons_self) with hxn | hxk
        · rcases List.mem_cons.mp (hcover y (List.mem_cons_of_mem x hy)) with hyn | hyk
          · omega
          · exact hyk
        have hn := hfirst _ hxk
        rcases List.mem_cons.mp (hcover y (List.mem_cons_of_mem x hy)) with hyn | hyk
        · omega
        · exact hyk
      by_cases hn : key x = n
      · have htail : keys.filterMap (fun m => ((x :: rest).find? fun y => key y = m).bind g) =
            keys.filterMap (fun m => (rest.find? fun y => key y = m).bind g) := by
          apply List.filterMap_congr
          intro m hm
          have hlt := hfirst m hm
          have hne : ¬ key x = m := by omega
          rw [List.find?_cons]
          simp [hne]
        have hhead : ((x :: rest).find? fun y => key y = n) = some x := by
          rw [List.find?_cons]
          simp [hn]
        rw [List.filterMap_cons, htail, ih hxs hrest hlater, List.filterMap_cons, hhead]
        rfl
      · have hxk : key x ∈ keys := by
          rcases List.mem_cons.mp (hcover x List.mem_cons_self) with hxn | hxk
          · exact absurd hxn hn
          · exact hxk
        have hnone : ((x :: rest).find? fun y => key y = n) = none := by
          rw [List.find?_eq_none]
          intro y hy hyn
          have hlow := hfirst _ hxk
          have hyn : key y = n := by simpa using hyn
          rcases List.mem_cons.mp hy with he | hy
          · rw [he] at hyn
            exact hn hyn
          · have hlt := hx y hy
            omega
        have hall : ∀ y ∈ x :: rest, key y ∈ keys := by
          intro y hy
          rcases List.mem_cons.mp hy with he | hy
          · rw [he]
            exact hxk
          · exact hlater y hy
        rw [List.filterMap_cons, hnone]
        exact ih h hrest hall

/-- Two readings along the same keys, the first of which shows nothing that the second
hides, are the same list only if they agree on every key. -/
theorem eqOn_of_filterMap_eq {f g : Nat → Option β} (hfg : ∀ n ∈ keys, f n ≠ none → g n ≠ none)
    (he : keys.filterMap f = keys.filterMap g) : ∀ n ∈ keys, f n = g n := by
  have hshorter : ∀ ks : List Nat, (∀ n ∈ ks, f n ≠ none → g n ≠ none) →
      (ks.filterMap f).length ≤ (ks.filterMap g).length := by
    intro ks
    induction ks with
    | nil => intro _; exact le_rfl
    | cons k ks ih =>
      intro hks
      have hrest := ih fun n hn => hks n (List.mem_cons_of_mem k hn)
      rw [List.filterMap_cons, List.filterMap_cons]
      cases hf : f k with
      | none =>
        cases hg : g k with
        | none => exact hrest
        | some b => exact Nat.le_succ_of_le hrest
      | some a =>
        cases hg : g k with
        | none =>
          have hsome : f k ≠ none := by rw [hf]; exact Option.some_ne_none a
          exact absurd hg (hks k List.mem_cons_self hsome)
        | some b => exact Nat.succ_le_succ hrest
  induction keys with
  | nil => intro n hn; cases hn
  | cons k ks ih =>
    have hks := fun n hn => hfg n (List.mem_cons_of_mem k hn)
    rw [List.filterMap_cons, List.filterMap_cons] at he
    have hboth : f k = g k ∧ ks.filterMap f = ks.filterMap g := by
      cases hf : f k with
      | none =>
        rw [hf] at he
        cases hg : g k with
        | none =>
          rw [hg] at he
          exact ⟨rfl, he⟩
        | some b =>
          rw [hg] at he
          have hlength := congrArg List.length he
          have hle := hshorter ks hks
          simp only [List.length_cons] at hlength
          omega
      | some a =>
        rw [hf] at he
        cases hg : g k with
        | none =>
          have hsome : f k ≠ none := by rw [hf]; exact Option.some_ne_none a
          exact absurd hg (hfg k List.mem_cons_self hsome)
        | some b =>
          rw [hg] at he
          obtain ⟨hab, hrest⟩ := List.cons.inj he
          rw [hab]
          exact ⟨rfl, hrest⟩
    intro n hn
    rcases List.mem_cons.mp hn with hk | hn
    · rw [hk]
      exact hboth.1
    · exact ih hks hboth.2 n hn

end Keyed
