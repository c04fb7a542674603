import Mathlib.Data.List.Basic

/-! # Marked records without lengths

A stream says each record's mark and then its content, with no length between them. Two lists of
records say the same only where a content runs on as the records after it begin.
-/

namespace Records

variable {κ α : Type} {mark : κ → List α} {valid : κ → Prop}

def stream (mark : κ → List α) : List (κ × List α) → List α
  | [] => []
  | (key, content) :: rest => mark key ++ content ++ stream mark rest

@[simp] theorem stream_nil : stream mark [] = [] := rfl

@[simp] theorem stream_cons (key : κ) (content : List α) (rest : List (κ × List α)) :
    stream mark ((key, content) :: rest) = mark key ++ content ++ stream mark rest := rfl

theorem stream_append (rs ss : List (κ × List α)) :
    stream mark (rs ++ ss) = stream mark rs ++ stream mark ss := by
  induction rs with
  | nil => rfl
  | cons r rest ih =>
    obtain ⟨key, content⟩ := r
    simp [ih]

structure PrefixFree (mark : κ → List α) (valid : κ → Prop) : Prop where
  ne_nil : ∀ {k : κ}, valid k → mark k ≠ []
  key_eq : ∀ {k l : κ} {x y : List α}, valid k → valid l → mark k ++ x = mark l ++ y → k = l

/-- A content of the first list runs on, in the second one, by what the first list's later records
begin with; from there on both say the same. -/
def Spills (mark : κ → List α) (rs ss : List (κ × List α)) : Prop :=
  ∃ (common : List (κ × List α)) (key : κ) (content extra : List α)
    (later later' : List (κ × List α)),
    extra ≠ [] ∧ rs = common ++ (key, content) :: later ∧
      ss = common ++ (key, content ++ extra) :: later' ∧
        stream mark later = extra ++ stream mark later'

variable {rs ss : List (κ × List α)}

theorem Spills.cons (r : κ × List α) (h : Spills mark rs ss) : Spills mark (r :: rs) (r :: ss) := by
  obtain ⟨common, key, content, extra, later, later', hextra, hrs, hss, hlater⟩ := h
  exact ⟨r :: common, key, content, extra, later, later', hextra, by simp [hrs], by simp [hss],
    hlater⟩

theorem Spills.stream_eq (h : Spills mark rs ss) : stream mark rs = stream mark ss := by
  obtain ⟨common, key, content, extra, later, later', hextra, hrs, hss, hlater⟩ := h
  simp [hrs, hss, stream_append, hlater]

/-- The first record in which two lists that say the same differ has the same mark in both. -/
theorem eq_or_spills (hfree : PrefixFree mark valid)
    (hrs : ∀ r ∈ rs, valid r.1) (hss : ∀ s ∈ ss, valid s.1) (h : stream mark rs = stream mark ss) :
    rs = ss ∨ Spills mark rs ss ∨ Spills mark ss rs := by
  induction rs generalizing ss with
  | nil =>
    cases ss with
    | nil => exact Or.inl rfl
    | cons s ss =>
      have hne := hfree.ne_nil (hss s List.mem_cons_self)
      simp [stream, hne] at h
  | cons r rs ih =>
    cases ss with
    | nil =>
      have hne := hfree.ne_nil (hrs r List.mem_cons_self)
      simp [stream, hne] at h
    | cons s ss =>
      obtain ⟨key, content⟩ := r
      obtain ⟨key', content'⟩ := s
      have hkey : valid key := hrs _ List.mem_cons_self
      have hkey' : valid key' := hss _ List.mem_cons_self
      simp only [stream_cons, List.append_assoc] at h
      have hsame : key = key' := hfree.key_eq hkey hkey' h
      subst hsame
      have hrest := List.append_cancel_left h
      have htails := fun heq => ih (fun r hr => hrs r (List.mem_cons_of_mem _ hr))
        (fun s hs => hss s (List.mem_cons_of_mem _ hs)) heq
      by_cases hcontent : content = content'
      · subst hcontent
        rcases htails (List.append_cancel_left hrest) with heq | hspill | hspill
        · exact Or.inl (by rw [heq])
        · exact Or.inr (Or.inl (hspill.cons _))
        · exact Or.inr (Or.inr (hspill.cons _))
      rcases List.append_eq_append_iff.mp hrest with ⟨extra, hlong, hlater⟩ |
        ⟨extra, hlong, hlater⟩
      · have hextra : extra ≠ [] := by
          intro hnil
          simp [hnil] at hlong
          exact hcontent hlong.symm
        exact Or.inr (Or.inl ⟨[], key, content, extra, rs, ss, hextra, rfl,
          by simp [hlong], hlater⟩)
      have hextra : extra ≠ [] := by
        intro hnil
        simp [hnil] at hlong
        exact hcontent hlong
      exact Or.inr (Or.inr ⟨[], key, content', extra, ss, rs, hextra, rfl,
        by simp [hlong], hlater⟩)

/-! ## Separators -/

theorem split_at_first {p : α → Prop} {sep sep' : α} {xs ys us vs : List α} (hx : ∀ c ∈ xs, ¬ p c)
    (hy : ∀ c ∈ ys, ¬ p c) (hsep : p sep) (hsep' : p sep')
    (h : xs ++ sep :: us = ys ++ sep' :: vs) : xs = ys ∧ sep = sep' ∧ us = vs := by
  induction xs generalizing ys with
  | nil =>
    cases ys with
    | nil =>
      cases h
      exact ⟨rfl, rfl, rfl⟩
    | cons y ys =>
      cases h
      exact absurd hsep (hy _ List.mem_cons_self)
  | cons x xs ih =>
    cases ys with
    | nil =>
      cases h
      exact absurd hsep' (hx _ List.mem_cons_self)
    | cons y ys =>
      rw [List.cons_append, List.cons_append, List.cons.injEq] at h
      obtain ⟨hhead, htail⟩ := ih (fun c hc => hx c (List.mem_cons_of_mem x hc))
        (fun c hc => hy c (List.mem_cons_of_mem y hc)) h.2
      exact ⟨by rw [h.1, hhead], htail⟩

theorem split_at_separator {sep : α} {xs ys us vs : List α} (hx : sep ∉ xs) (hy : sep ∉ ys)
    (h : xs ++ sep :: us = ys ++ sep :: vs) : xs = ys ∧ us = vs := by
  have hfirst := split_at_first (p := (sep = ·)) (fun c hc heq => hx (heq ▸ hc))
    (fun c hc heq => hy (heq ▸ hc)) rfl rfl h
  exact ⟨hfirst.1, hfirst.2.2⟩

end Records
