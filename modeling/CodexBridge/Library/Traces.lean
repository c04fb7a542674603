import Mathlib.Data.List.Basic

/-! # Traces

A trace lists what happened, newest first, so that the tail of an event is its past. A
safety property of runs is a property of each event and its past.
-/

namespace Traces

variable {ε κ : Type}

/-- Every event stands to its past as `P` says. -/
def Always (P : ε → List ε → Prop) : List ε → Prop
  | [] => True
  | e :: past => P e past ∧ Always P past

variable {P Q : ε → List ε → Prop}

@[simp] theorem always_nil : Always P [] := trivial

@[simp] theorem always_cons (e : ε) (past : List ε) :
    Always P (e :: past) ↔ P e past ∧ Always P past := Iff.rfl

theorem always_iff (t : List ε) : Always P t ↔ ∀ e past, e :: past <:+ t → P e past := by
  induction t with
  | nil =>
    constructor
    · intro _ e past hs
      have hn := List.suffix_nil.mp hs
      cases hn
    · intro _
      exact always_nil
  | cons a t ih =>
    rw [always_cons, ih]
    constructor
    · intro h e past hs
      rcases List.suffix_cons_iff.mp hs with he | hs
      · cases he
        exact h.1
      · exact h.2 e past hs
    · intro h
      refine ⟨h a t List.suffix_rfl, ?_⟩
      intro e past hs
      exact h e past (hs.trans (List.suffix_cons a t))

theorem Always.of_suffix {t u : List ε} (h : Always P t) (hs : u <:+ t) : Always P u := by
  rw [always_iff] at h ⊢
  intro e past he
  exact h e past (he.trans hs)

/-! ## Keys in the order in which they were recorded -/

/-- How many events since the last one that satisfies `p` satisfy `q`. -/
def countSince (p q : ε → Bool) : List ε → Nat
  | [] => 0
  | e :: past => if p e then 0 else (if q e then 1 else 0) + countSince p q past

theorem countSince_append_cons (p q : ε → Bool) (later past : List ε) (e : ε)
    (hlater : ∀ x ∈ later, p x = false) (he : p e = true) :
    countSince p q (later ++ e :: past) = later.countP q := by
  induction later with
  | nil => simp [countSince, he]
  | cons a later ih =>
    have ha := hlater a List.mem_cons_self
    have htail := ih fun x hx => hlater x (List.mem_cons_of_mem a hx)
    simp only [List.cons_append, countSince, ha, htail, List.countP_cons]
    simp only [Bool.false_eq_true, if_false]
    omega

/-- Some event satisfies `p`, and none after it satisfies `q`. -/
def since (p q : ε → Bool) : List ε → Bool
  | [] => false
  | e :: past => p e || (!q e && since p q past)

theorem since_cons (p q : ε → Bool) (e : ε) (past : List ε) :
    since p q (e :: past) = true ↔ p e = true ∨ (q e = false ∧ since p q past = true) := by
  simp [since]

end Traces
