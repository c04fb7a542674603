import Mathlib.Data.List.Pairwise
import Mathlib.Data.List.Sort

/-! # Paging by a key

A listing in descending order of a key is read in pages. A page asks for one row more
than it shows, and the next page starts below the key of the last row shown.
-/

namespace Paging

variable {α : Type} (key : α → Nat)

/-- The row lies below the starting point, if there is one. -/
def isBelow (before : Option Nat) (x : α) : Bool :=
  match before with
  | none => true
  | some bound => key x < bound

/-- The pages from a starting point, each read by `select`, which is asked for one row
more than a page shows. -/
def pages (select : Option Nat → Nat → List α) (limit : Nat) : Nat → Option Nat → List (List α)
  | 0, _ => []
  | fuel + 1, before =>
    let rows := select before (limit + 1)
    if limit < rows.length then
      rows.take limit :: pages select limit fuel ((rows.take limit).getLast?.map key)
    else [rows]

variable {key} {xs : List α}

def listing (key : α → Nat) (xs : List α) : List α := xs.insertionSort fun a b => key b ≤ key a

theorem pairwise_listing (h : (xs.map key).Nodup) :
    (listing key xs).Pairwise fun a b => key b < key a := by
  have htotal : Std.Total fun a b : α => key b ≤ key a := ⟨fun a b => le_total (key b) (key a)⟩
  have htrans : IsTrans α fun a b => key b ≤ key a := ⟨fun a b c hab hbc => le_trans hbc hab⟩
  have hsorted := List.pairwise_insertionSort (fun a b => key b ≤ key a) xs
  have hdistinct : (listing key xs).Pairwise fun a b => key a ≠ key b :=
    (List.perm_insertionSort _ xs).symm.pairwise (List.pairwise_map.mp h) Ne.symm
  refine (hsorted.and hdistinct).imp fun {a b} hab => ?_
  exact lt_of_le_of_ne hab.1 (Ne.symm hab.2)

theorem listing_filter (h : (xs.map key).Nodup) (p : α → Bool) :
    listing key (xs.filter p) = (listing key xs).filter p := by
  have hsub : ((xs.filter p).map key).Nodup := h.sublist (List.filter_sublist.map key)
  have hperm : (listing key (xs.filter p)).Perm ((listing key xs).filter p) :=
    (List.perm_insertionSort _ _).trans ((List.perm_insertionSort _ xs).symm.filter p)
  refine hperm.eq_of_pairwise ?_ (pairwise_listing hsub) ((pairwise_listing h).filter p)
  intro a b _ _ hab hba
  omega

theorem filter_below_last (hs : xs.Pairwise fun a b => key b < key a) {n : Nat} {last : α}
    (hl : (xs.take n).getLast? = some last) :
    (xs.filter fun x => key x < key last) = xs.drop n := by
  have hsplit : xs.take n ++ xs.drop n = xs := List.take_append_drop n xs
  have hpairs := hs
  rw [← hsplit] at hpairs
  obtain ⟨hfront, _, hcross⟩ := List.pairwise_append.mp hpairs
  obtain ⟨init, hinit⟩ := List.getLast?_eq_some_iff.mp hl
  have hfirst : ((xs.take n).filter fun x => key x < key last) = [] := by
    refine List.filter_eq_nil_iff.mpr fun x hx => ?_
    rw [hinit] at hx hfront
    rcases List.mem_append.mp hx with hx | hx
    · have hgt := (List.pairwise_append.mp hfront).2.2 x hx last List.mem_cons_self
      have hnot : ¬ key x < key last := by omega
      simpa using hnot
    · rw [List.mem_singleton.mp hx]
      simp
  have hlast : last ∈ xs.take n := List.mem_of_getLast? hl
  have hrest : ((xs.drop n).filter fun x => key x < key last) = xs.drop n := by
    refine List.filter_eq_self.mpr fun x hx => ?_
    simpa using hcross last hlast x hx
  have happend :=
    List.filter_append (p := fun x => decide (key x < key last)) (xs.take n) (xs.drop n)
  rw [hsplit, hfirst, hrest, List.nil_append] at happend
  exact happend

theorem flatten_pages (hs : xs.Pairwise fun a b => key b < key a) {f : Option Nat → Nat → List α}
    (hselect : ∀ before n, f before n = (xs.filter (isBelow key before)).take n)
    {limit : Nat} (hl : 0 < limit) {fuel : Nat} {before : Option Nat}
    (hf : (xs.filter (isBelow key before)).length < fuel) :
    (pages key f limit fuel before).flatten = xs.filter (isBelow key before) := by
  induction fuel generalizing before with
  | zero => omega
  | succ fuel ih =>
    unfold pages
    simp only [hselect]
    generalize hys : xs.filter (isBelow key before) = ys at hf ⊢
    have hsorted : ys.Pairwise fun a b => key b < key a := by
      rw [← hys]
      exact hs.filter _
    by_cases hmore : limit < (ys.take (limit + 1)).length
    · have hlength : limit < ys.length := by
        rw [List.length_take] at hmore
        omega
      have htake : (ys.take (limit + 1)).take limit = ys.take limit := by
        rw [List.take_take]
        congr 1
        omega
      rw [if_pos hmore, htake, List.flatten_cons]
      cases hlast : (ys.take limit).getLast? with
      | none =>
        have hnil := List.getLast?_eq_none_iff.mp hlast
        have hzero := congrArg List.length hnil
        rw [List.length_take, List.length_nil] at hzero
        omega
      | some last =>
        have hin : last ∈ ys := List.mem_of_mem_take (List.mem_of_getLast? hlast)
        have hbelow : xs.filter (isBelow key (some (key last))) =
            ys.filter fun x => key x < key last := by
          rw [← hys, List.filter_filter]
          refine List.filter_congr fun x _ => ?_
          rw [← hys] at hin
          have hstart := (List.mem_filter.mp hin).2
          unfold isBelow at hstart ⊢
          cases before with
          | none => simp
          | some bound =>
            have hless : key last < bound := by simpa using hstart
            by_cases hx : key x < key last
            · have htrans : key x < bound := by omega
              simp [hx, htrans]
            · simp [hx]
        have hnext := hbelow.trans (filter_below_last hsorted hlast)
        have hshort : (xs.filter (isBelow key (some (key last)))).length < fuel := by
          rw [hnext, List.length_drop]
          omega
        rw [Option.map_some, ih hshort, hnext, List.take_append_drop]
    · have hall : ys.take (limit + 1) = ys := by
        refine List.take_of_length_le ?_
        rw [List.length_take] at hmore
        omega
      rw [if_neg hmore, hall, List.flatten_singleton]

end Paging
