import Mathlib.Data.Option.Basic

/-! # Runs of guarded steps

A system is a partial step: a label that is not enabled in a state has no
successor. Every choice of the environment is part of the label, so a run is
determined by its labels and can be evaluated. Safety of every reachable state
reduces to one step, also when only the steps meeting a condition are allowed.
-/

namespace Runs

variable {σ α : Type}

/-- The state after a list of labels, if each was enabled where it was taken. -/
def exec (next : σ → α → Option σ) : σ → List α → Option σ
  | s, [] => some s
  | s, a :: rest =>
    match next s a with
    | none => none
    | some t => exec next t rest

/-- Every step of the run meets `C`, a condition on the state before and the label. -/
def Meets (next : σ → α → Option σ) (C : σ → α → Prop) : σ → List α → Prop
  | _, [] => True
  | s, a :: rest => C s a ∧ ∀ t, next s a = some t → Meets next C t rest

/-- A condition on steps that can be evaluated can be evaluated along a run. -/
instance decidableMeets (next : σ → α → Option σ) (C : σ → α → Prop)
    [∀ s a, Decidable (C s a)] : ∀ s as, Decidable (Meets next C s as)
  | _, [] => isTrue trivial
  | s, a :: rest =>
    have hrest : Decidable (∀ t, next s a = some t → Meets next C t rest) :=
      match h : next s a with
      | none => isTrue fun t ht => by cases ht
      | some t =>
        match decidableMeets next C t rest with
        | isTrue hm => isTrue fun u hu => by cases hu; exact hm
        | isFalse hm => isFalse fun hall => hm (hall t rfl)
    inferInstanceAs (Decidable (_ ∧ _))

variable {next : σ → α → Option σ} {C : σ → α → Prop} {I : σ → Prop}

/-- A guarded step that was taken. -/
theorem enabled {p : Prop} [Decidable p] {x : Option σ} {t : σ}
    (h : (if p then x else none) = some t) : p ∧ x = some t :=
  Option.ite_none_right_eq_some.mp h

/-- A guarded step whose successor is known. -/
theorem taken {p : Prop} [Decidable p] {s t : σ} (h : (if p then some s else none) = some t) :
    p ∧ t = s :=
  (enabled h).imp id fun hs => (Option.some.inj hs).symm

@[simp] theorem exec_nil (s : σ) : exec next s [] = some s := rfl

theorem exec_cons_eq_some_iff (s u : σ) (a : α) (rest : List α) :
    exec next s (a :: rest) = some u ↔ ∃ t, next s a = some t ∧ exec next t rest = some u := by
  rw [exec]
  cases next s a with
  | none => simp
  | some t => simp

theorem exec_append (s : σ) (as bs : List α) :
    exec next s (as ++ bs) = (exec next s as).bind fun t => exec next t bs := by
  induction as generalizing s with
  | nil => rfl
  | cons a as ih =>
    rw [List.cons_append, exec, exec]
    cases next s a with
    | none => rfl
    | some t => exact ih t

/-- Some run leads from one state to another. -/
def Reaches (next : σ → α → Option σ) (s t : σ) : Prop := ∃ as, exec next s as = some t

theorem Reaches.refl (s : σ) : Reaches next s s := ⟨[], rfl⟩

theorem Reaches.trans {s t u : σ} (hst : Reaches next s t) (htu : Reaches next t u) :
    Reaches next s u := by
  obtain ⟨as, has⟩ := hst
  obtain ⟨bs, hbs⟩ := htu
  exact ⟨as ++ bs, by rw [exec_append, has, Option.bind_some, hbs]⟩

theorem Reaches.head {s t u : σ} {a : α} (h : next s a = some t) (htu : Reaches next t u) :
    Reaches next s u := by
  obtain ⟨as, has⟩ := htu
  exact ⟨a :: as, by rw [exec, h, ← has]⟩

/-- A condition on the labels alone may be added to one on the steps. -/
theorem Meets.and_mem {D : α → Prop} {s : σ} {as : List α} (h : Meets next C s as)
    (hd : ∀ a ∈ as, D a) : Meets next (fun s a => C s a ∧ D a) s as := by
  induction as generalizing s with
  | nil => exact trivial
  | cons a as ih =>
    refine ⟨⟨h.1, hd a List.mem_cons_self⟩, ?_⟩
    intro t ht
    exact ih (h.2 t ht) fun b hb => hd b (List.mem_cons_of_mem a hb)

/-- What every step preserves, every run preserves. -/
theorem invariant (hstep : ∀ s a t, I s → next s a = some t → I t) {s t : σ} {as : List α}
    (hs : I s) (h : exec next s as = some t) : I t := by
  induction as generalizing s with
  | nil =>
    cases h
    exact hs
  | cons a as ih =>
    obtain ⟨u, hu, hrest⟩ := (exec_cons_eq_some_iff s t a as).mp h
    exact ih (hstep s a u hs hu) hrest

/-- What every step meeting `C` preserves, every run of such steps preserves. -/
theorem invariant_of_meets (hstep : ∀ s a t, I s → C s a → next s a = some t → I t)
    {s t : σ} {as : List α} (hs : I s) (hc : Meets next C s as)
    (h : exec next s as = some t) : I t := by
  induction as generalizing s with
  | nil =>
    cases h
    exact hs
  | cons a as ih =>
    obtain ⟨u, hu, hrest⟩ := (exec_cons_eq_some_iff s t a as).mp h
    exact ih (hstep s a u hs hc.1 hu) (hc.2 u hu) hrest

end Runs
