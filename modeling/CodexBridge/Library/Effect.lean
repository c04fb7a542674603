import Mathlib.Logic.Basic

/-! # Raising computations over a mutable state

A computation returns or raises, and in both cases leaves the state it reached:
a raise keeps every assignment made before it. Nothing is rolled back unless the
program does so itself. The triples below speak about both exits.
-/

namespace Effect

def Action (σ ε α : Type) : Type := σ → Except ε α × σ

variable {σ ε α β : Type}

/-! ## Programs -/

def Action.pure (a : α) : Action σ ε α := fun s => (.ok a, s)

def Action.bind (c : Action σ ε α) (f : α → Action σ ε β) : Action σ ε β := fun s =>
  match c s with
  | (.ok a, t) => f a t
  | (.error e, t) => (.error e, t)

instance : Monad (Action σ ε) where
  pure := Action.pure
  bind := Action.bind

def raise (e : ε) : Action σ ε α := fun s => (.error e, s)

def read (f : σ → α) : Action σ ε α := fun s => (.ok (f s), s)

def modify (f : σ → σ) : Action σ ε Unit := fun s => (.ok (), f s)

def require (test : Bool) (e : ε) : Action σ ε Unit :=
  if test then Pure.pure () else raise e

def lift (r : Except ε α) : Action σ ε α := fun s => (r, s)

/-- `try c except handler`: the handler runs in the state the error left. -/
def attempt (c : Action σ ε α) (handler : ε → Action σ ε α) : Action σ ε α := fun s =>
  match c s with
  | (.ok a, t) => (.ok a, t)
  | (.error e, t) => handler e t

/-- Run the body for each element in order, stopping at the first raise. -/
def forEach (xs : List α) (body : α → Action σ ε Unit) : Action σ ε Unit :=
  match xs with
  | [] => Pure.pure ()
  | x :: rest => Action.bind (body x) fun _ => forEach rest body

/-- `if p: raise e`. -/
def refuse (p : Prop) [Decidable p] (e : ε) : Except ε Unit := if p then .error e else .ok ()

theorem except_bind_eq_ok {x : Except ε α} {f : α → Except ε β} {b : β} :
    (x >>= f) = .ok b ↔ ∃ a, x = .ok a ∧ f a = .ok b := by
  cases x with
  | ok a =>
    constructor
    · intro h
      exact ⟨a, rfl, h⟩
    · rintro ⟨a', ha, h⟩
      cases ha
      exact h
  | error e =>
    constructor
    · intro h
      cases h
    · rintro ⟨a, ha, _⟩
      cases ha

variable {e : ε}

theorem except_bind_eq_error {x : Except ε α} {f : α → Except ε β} :
    (x >>= f) = .error e ↔ x = .error e ∨ ∃ a, x = .ok a ∧ f a = .error e := by
  cases x with
  | ok a =>
    constructor
    · intro h
      exact .inr ⟨a, rfl, h⟩
    · rintro (h | ⟨a', ha, h⟩)
      · cases h
      · cases ha
        exact h
  | error e' =>
    constructor
    · intro h
      cases h
      exact .inl rfl
    · rintro (h | ⟨a, ha, _⟩)
      · cases h
        rfl
      · cases ha

theorem except_map_eq_ok {x : Except ε α} {f : α → β} {b : β} :
    x.map f = .ok b ↔ ∃ a, x = .ok a ∧ f a = b := by
  cases x with
  | ok a => simp [Except.map]
  | error e => simp [Except.map]

theorem refuse_bind_eq_ok {p : Prop} [Decidable p] {f : Unit → Except ε β} {b : β} :
    (refuse p e >>= f) = .ok b ↔ ¬ p ∧ f () = .ok b := by
  by_cases hp : p
  · rw [refuse, if_pos hp]
    constructor
    · intro h
      cases h
    · intro h
      exact absurd hp h.1
  rw [refuse, if_neg hp]
  constructor
  · intro h
    exact ⟨hp, h⟩
  · intro h
    exact h.2

theorem refuse_bind_eq_error {p : Prop} [Decidable p] {e e' : ε} {f : Unit → Except ε β} :
    (refuse p e >>= f) = .error e' ↔ (p ∧ e = e') ∨ ¬ p ∧ f () = .error e' := by
  by_cases hp : p
  · rw [refuse, if_pos hp]
    constructor
    · intro h
      cases h
      exact .inl ⟨hp, rfl⟩
    · rintro (⟨_, rfl⟩ | ⟨hn, _⟩)
      · rfl
      · exact absurd hp hn
  · rw [refuse, if_neg hp]
    constructor
    · intro h
      exact .inr ⟨hp, h⟩
    · rintro (⟨h, _⟩ | ⟨_, h⟩)
      · exact absurd h hp
      · exact h

theorem refuse_bind_of_not {p : Prop} [Decidable p] (hp : ¬ p) (e : ε) (f : Unit → Except ε β) :
    (refuse p e >>= f) = f () := by
  rw [refuse, if_neg hp]
  rfl

theorem refuse_bind_of {p : Prop} [Decidable p] (hp : p) (e : ε) (f : Unit → Except ε β) :
    (refuse p e >>= f) = .error e := by
  rw [refuse, if_pos hp]
  rfl

@[simp] theorem except_pure_bind (a : α) (f : α → Except ε β) :
    ((Except.ok a : Except ε α) >>= f) = f a := rfl

/-- Every error of a fallible expression meets `E`. -/
def Raises (E : ε → Prop) (x : Except ε α) : Prop := ∀ e, x = .error e → E e

section

variable {E : ε → Prop}

theorem Raises.ok {a : α} : Raises E (.ok a) := by
  intro e h
  cases h

theorem Raises.error {e : ε} (h : E e) : Raises E (.error e : Except ε α) := by
  intro e' h'
  cases h'
  exact h

theorem Raises.bind {x : Except ε α} {f : α → Except ε β} (hx : Raises E x)
    (hf : ∀ a, Raises E (f a)) : Raises E (x >>= f) := by
  cases x with
  | ok a => exact hf a
  | error e => exact Raises.error (hx e rfl)

theorem Raises.map {x : Except ε α} {f : α → β} (hx : Raises E x) : Raises E (x.map f) := by
  cases x with
  | ok a => exact Raises.ok
  | error e => exact Raises.error (hx e rfl)

theorem Raises.refuse {p : Prop} [Decidable p] {e : ε} (h : E e) :
    Raises E (Effect.refuse p e) := by
  unfold Effect.refuse
  split
  · exact Raises.error h
  · exact Raises.ok

end

@[simp] theorem pure_run (a : α) (s : σ) : (Pure.pure a : Action σ ε α) s = (.ok a, s) := rfl

@[simp] theorem raise_run (e : ε) (s : σ) : (raise e : Action σ ε α) s = (.error e, s) := rfl

@[simp] theorem read_run (f : σ → α) (s : σ) : (read f : Action σ ε α) s = (.ok (f s), s) := rfl

@[simp] theorem modify_run (f : σ → σ) (s : σ) :
    (modify f : Action σ ε Unit) s = (.ok (), f s) := rfl

@[simp] theorem lift_run (r : Except ε α) (s : σ) : (lift r : Action σ ε α) s = (r, s) := rfl

theorem bind_run (c : Action σ ε α) (f : α → Action σ ε β) (s : σ) :
    (c >>= f) s = match c s with
      | (.ok a, t) => f a t
      | (.error e, t) => (.error e, t) := rfl

@[simp] theorem bind_pure_run (a : α) (f : α → Action σ ε β) (s : σ) :
    ((Pure.pure a : Action σ ε α) >>= f) s = f a s := rfl

@[simp] theorem bind_raise_run (e : ε) (f : α → Action σ ε β) (s : σ) :
    ((raise e : Action σ ε α) >>= f) s = (.error e, s) := rfl

@[simp] theorem bind_read_run (g : σ → α) (f : α → Action σ ε β) (s : σ) :
    ((read g : Action σ ε α) >>= f) s = f (g s) s := rfl

@[simp] theorem bind_modify_run (g : σ → σ) (f : Unit → Action σ ε β) (s : σ) :
    ((modify g : Action σ ε Unit) >>= f) s = f () (g s) := rfl

@[simp] theorem require_true_run (e : ε) (s : σ) :
    (require true e : Action σ ε Unit) s = (.ok (), s) := rfl

@[simp] theorem require_false_run (e : ε) (s : σ) :
    (require false e : Action σ ε Unit) s = (.error e, s) := rfl

variable {c : Action σ ε α}

theorem bind_run_of_ok {s t : σ} {a : α} (h : c s = (.ok a, t))
    (f : α → Action σ ε β) : (c >>= f) s = f a t := by
  rw [bind_run, h]

theorem bind_run_of_error {s t : σ} (h : c s = (.error e, t))
    (f : α → Action σ ε β) : (c >>= f) s = (.error e, t) := by
  rw [bind_run, h]

variable {f : α → Action σ ε β}

theorem bind_eq_ok {s t : σ} {b : β} :
    (c >>= f) s = (.ok b, t) ↔ ∃ a u, c s = (.ok a, u) ∧ f a u = (.ok b, t) := by
  rw [bind_run]
  rcases c s with ⟨r, u⟩
  cases r with
  | ok a =>
    constructor
    · intro h
      exact ⟨a, u, rfl, h⟩
    · rintro ⟨_, _, heq, h⟩
      cases heq
      exact h
  | error e => simp

theorem lift_bind_eq_ok {r : Except ε α} {s t : σ} {b : β} :
    (lift r >>= f) s = (.ok b, t) ↔ ∃ a, r = .ok a ∧ f a s = (.ok b, t) := by
  rw [bind_run, lift_run]
  cases r with
  | ok a =>
    constructor
    · intro h
      exact ⟨a, rfl, h⟩
    · rintro ⟨_, heq, h⟩
      cases heq
      exact h
  | error e => simp

theorem refusal_bind_eq_ok {p : Prop} [Decidable p] {f : Unit → Action σ ε β} {s t : σ} {b : β} :
    (lift (refuse p e) >>= f) s = (.ok b, t) ↔ ¬ p ∧ f () s = (.ok b, t) := by
  rw [bind_run, lift_run]
  by_cases hp : p
  · simp [refuse, hp]
  · simp [refuse, hp]

theorem refusal_eq_ok {p : Prop} [Decidable p] {s t : σ} :
    (lift (refuse p e) : Action σ ε Unit) s = (.ok (), t) ↔ ¬ p ∧ s = t := by
  rw [lift_run]
  by_cases hp : p
  · simp [refuse, hp]
  · simp [refuse, hp]

/-! ## Triples -/

/-- From `P`, a return establishes `Q` and a raise establishes `E`. -/
def Triple (P : σ → Prop) (c : Action σ ε α) (Q : α → σ → Prop) (E : ε → σ → Prop) : Prop :=
  ∀ s, P s → (∀ a t, c s = (.ok a, t) → Q a t) ∧ (∀ e t, c s = (.error e, t) → E e t)

/-- `c` keeps `I` however it leaves. -/
def Keeps (I : σ → Prop) (c : Action σ ε α) : Prop :=
  Triple I c (fun _ => I) (fun _ => I)

variable {P R : σ → Prop} {Q U : α → σ → Prop} {E F : ε → σ → Prop} {I : σ → Prop}

theorem Triple.weaken (h : Triple P c Q E) (hp : ∀ s, R s → P s)
    (hq : ∀ a s, Q a s → U a s) (he : ∀ e s, E e s → F e s) : Triple R c U F := by
  intro s hs
  obtain ⟨hok, herr⟩ := h s (hp s hs)
  exact ⟨fun a t hc => hq a t (hok a t hc), fun e t hc => he e t (herr e t hc)⟩

theorem Triple.returns (h : Triple P c Q E) (hq : ∀ a s, Q a s → U a s) : Triple P c U E :=
  h.weaken (fun _ hs => hs) hq fun _ _ hs => hs

theorem Triple.raises (h : Triple P c Q E) (he : ∀ e s, E e s → F e s) : Triple P c Q F :=
  h.weaken (fun _ hs => hs) (fun _ _ hs => hs) he

theorem Triple.pure {a : α} (h : ∀ s, P s → Q a s) : Triple P (Pure.pure a : Action σ ε α) Q E := by
  intro s hs
  refine ⟨?_, ?_⟩
  · intro b t hb
    cases hb
    exact h s hs
  · intro e t he
    cases he

theorem Triple.raise (h : ∀ s, P s → E e s) : Triple P (Effect.raise e : Action σ ε α) Q E := by
  intro s hs
  refine ⟨?_, ?_⟩
  · intro b t hb
    cases hb
  · intro e' t he
    cases he
    exact h s hs

variable {S : β → σ → Prop}

theorem Triple.bind {f : α → Action σ ε β}
    (hc : Triple P c Q E) (hf : ∀ a, Triple (Q a) (f a) S E) : Triple P (c >>= f) S E := by
  intro s hs
  obtain ⟨hok, herr⟩ := hc s hs
  rw [bind_run]
  cases hr : c s with
  | mk r t =>
    cases r with
    | ok a => exact hf a t (hok a t hr)
    | error e =>
      refine ⟨?_, ?_⟩
      · intro b u hb
        cases hb
      · intro e' u he
        cases he
        exact herr e t hr

/-- A read keeps the state and hands on one of its values. -/
theorem Triple.read {f : σ → α} (h : ∀ s, P s → Q (f s) s) :
    Triple P (Effect.read f : Action σ ε α) Q E := by
  intro s hs
  refine ⟨?_, ?_⟩
  · intro b t hb
    cases hb
    exact h s hs
  · intro e t he
    cases he

theorem Triple.modify {f : σ → σ} {T : Unit → σ → Prop} (h : ∀ s, P s → T () (f s)) :
    Triple P (Effect.modify f : Action σ ε Unit) T E := by
  intro s hs
  refine ⟨?_, ?_⟩
  · intro b t hb
    cases hb
    exact h s hs
  · intro e t he
    cases he

variable {test : Bool}

theorem Triple.require {T : Unit → σ → Prop}
    (hok : ∀ s, P s → test = true → T () s) (herr : ∀ s, P s → test = false → E e s) :
    Triple P (Effect.require test e : Action σ ε Unit) T E := by
  cases test with
  | true => exact Triple.pure fun s hs => hok s hs rfl
  | false => exact Triple.raise fun s hs => herr s hs rfl

variable {r : Except ε α}

theorem Triple.lift (hok : ∀ a s, P s → r = .ok a → Q a s)
    (herr : ∀ e s, P s → r = .error e → E e s) : Triple P (Effect.lift r : Action σ ε α) Q E := by
  intro s hs
  refine ⟨?_, ?_⟩
  · intro a t ha
    cases ha
    exact hok a s hs rfl
  · intro e t he
    cases he
    exact herr e s hs rfl

/-- The handler must re-establish the result from what the error left behind. -/
theorem Triple.attempt {handler : ε → Action σ ε α} {F : ε → σ → Prop}
    (hc : Triple P c Q F) (hh : ∀ e, Triple (F e) (handler e) Q E) :
    Triple P (Effect.attempt c handler) Q E := by
  intro s hs
  obtain ⟨hok, herr⟩ := hc s hs
  unfold Effect.attempt
  cases hr : c s with
  | mk r t =>
    cases r with
    | ok a =>
      refine ⟨?_, ?_⟩
      · intro b u hb
        cases hb
        exact hok a t hr
      · intro e u he
        cases he
    | error e => exact hh e t (herr e t hr)

/-- A fact that does not mention the state is a hypothesis. -/
theorem Triple.of_pure {φ : Prop} (h : φ → Triple P c Q E) : Triple (fun s => φ ∧ P s) c Q E := by
  intro s hs
  exact h hs.1 s hs.2

theorem Triple.map {f : α → β} (hc : Triple P c Q E)
    (hf : ∀ a s, Q a s → S (f a) s) : Triple P (f <$> c) S E :=
  Triple.bind hc fun a => Triple.pure fun s hs => hf a s hs

theorem Triple.map_value {f : α → β} (hc : Triple P c (fun _ => I) E) :
    Triple P (f <$> c) (fun _ => I) E :=
  hc.map fun _ _ hs => hs

/-- What holds at both exits holds of the state left. -/
theorem Triple.state (h : Triple P c (fun _ => I) (fun _ => I)) {s : σ} (hs : P s) : I (c s).2 := by
  obtain ⟨hok, herr⟩ := h s hs
  cases hr : c s with
  | mk r t =>
    cases r with
    | ok a => exact hok a t hr
    | error e => exact herr e t hr

/-- What follows a check may use that it passed. -/
theorem Triple.bind_require {f : Unit → Action σ ε β}
    (herr : ∀ s, P s → E e s) (hf : test = true → Triple P (f ()) S E) :
    Triple P (Effect.require test e >>= f) S E := by
  cases test with
  | true => exact hf rfl
  | false =>
    apply Triple.bind (Q := fun _ _ => False)
    · exact Triple.raise herr
    · intro _ s hs
      exact hs.elim

/-- A check known to pass does nothing. -/
theorem Triple.bind_require_of {f : Unit → Action σ ε β} (ht : test = true)
    (h : Triple P (f ()) S E) :
    Triple P (Effect.require test e >>= f) S E := by
  subst ht
  exact h

/-- A check known to fail leaves at once. -/
theorem Triple.bind_require_of_not {f : Unit → Action σ ε β} (ht : test = false)
    (h : ∀ s, P s → E e s) :
    Triple P (Effect.require test e >>= f) S E := by
  subst ht
  apply Triple.bind (Q := fun _ _ => False)
  · exact Triple.raise h
  · intro _ s hs
    exact hs.elim

/-- What follows a fallible expression may use the value it returned. -/
theorem Triple.bind_lift_cases (herr : ∀ e s, P s → r = .error e → E e s)
    (hf : ∀ a, r = .ok a → Triple P (f a) S E) : Triple P (Effect.lift r >>= f) S E := by
  cases r with
  | ok a => exact hf a rfl
  | error e =>
    apply Triple.bind (Q := fun _ _ => False)
    · exact Triple.lift (fun a s _ h => by cases h) herr
    · intro _ s hs
      exact hs.elim

theorem Triple.bind_lift (herr : ∀ e s, P s → E e s) (hf : ∀ a, r = .ok a → Triple P (f a) S E) :
    Triple P (Effect.lift r >>= f) S E :=
  Triple.bind_lift_cases (fun e s hs _ => herr e s hs) hf

theorem Triple.bind_refusal {p : Prop} [Decidable p] {f : Unit → Action σ ε β}
    (herr : ∀ s, P s → p → E e s) (hf : ¬ p → Triple P (f ()) S E) :
    Triple P (Effect.lift (refuse p e) >>= f) S E := by
  by_cases hp : p
  · refine Triple.bind_lift_cases (fun e' s hs he => ?_) fun _ ha => ?_
    · rw [refuse, if_pos hp] at he
      cases he
      exact herr s hs hp
    · rw [refuse, if_pos hp] at ha
      cases ha
  · rw [refuse, if_neg hp]
    exact hf hp

/-- A fallible expression known to return hands on its value. -/
theorem Triple.bind_lift_of {a : α} {f : α → Action σ ε β}
    (hr : r = .ok a) (h : Triple P (f a) S E) : Triple P (Effect.lift r >>= f) S E := by
  subst hr
  exact h

/-- A loop whose body extends what holds of the elements done. -/
theorem Triple.forEach {xs : List α} {body : α → Action σ ε Unit} {J : List α → σ → Prop}
    (h : ∀ done x rest, xs = done ++ x :: rest →
      Triple (J done) (body x) (fun _ => J (done ++ [x])) E) :
    Triple (J []) (Effect.forEach xs body) (fun _ => J xs) E := by
  have key : ∀ rest done, xs = done ++ rest →
      Triple (J done) (Effect.forEach rest body) (fun _ => J xs) E := by
    intro rest
    induction rest with
    | nil =>
      intro done hd
      rw [List.append_nil] at hd
      exact Triple.pure fun s hs => hd ▸ hs
    | cons x rest ih =>
      intro done hd
      refine Triple.bind (h done x rest hd) fun _ => ih (done ++ [x]) ?_
      rw [hd, List.append_assoc]
      rfl
  exact key xs [] rfl

/-- It is enough to look at the state left, whatever the exit. -/
theorem Keeps.of_state (h : ∀ s, I s → I (c s).2) : Keeps I c := by
  intro s hs
  have hc := h s hs
  constructor
  · intro a t ht
    rw [ht] at hc
    exact hc
  · intro e t ht
    rw [ht] at hc
    exact hc

theorem Keeps.pure {a : α} : Keeps I (Pure.pure a : Action σ ε α) :=
  Triple.pure fun _ hs => hs

theorem Keeps.raise : Keeps I (Effect.raise e : Action σ ε α) :=
  Triple.raise fun _ hs => hs

theorem Keeps.read {f : σ → α} : Keeps I (Effect.read f : Action σ ε α) :=
  Triple.read fun _ hs => hs

theorem Keeps.require : Keeps I (Effect.require test e : Action σ ε Unit) :=
  Triple.require (fun _ hs _ => hs) (fun _ hs _ => hs)

theorem Keeps.lift : Keeps I (Effect.lift r : Action σ ε α) :=
  Triple.lift (fun _ _ hs _ => hs) (fun _ _ hs _ => hs)

theorem Keeps.modify {f : σ → σ} (h : ∀ s, I s → I (f s)) :
    Keeps I (Effect.modify f : Action σ ε Unit) :=
  Triple.modify h

theorem Keeps.bind (hc : Keeps I c) (hf : ∀ a, Keeps I (f a)) : Keeps I (c >>= f) :=
  Triple.bind hc hf

theorem Keeps.bind_require {f : Unit → Action σ ε β} (hf : test = true → Keeps I (f ())) :
    Keeps I (Effect.require test e >>= f) :=
  Triple.bind_require (fun _ hs => hs) hf

theorem Keeps.bind_lift (hf : ∀ a, r = .ok a → Keeps I (f a)) : Keeps I (Effect.lift r >>= f) :=
  Triple.bind_lift (fun _ _ hs => hs) hf

theorem Keeps.map {f : α → β} (hc : Keeps I c) : Keeps I (f <$> c) :=
  Keeps.bind hc fun _ => Keeps.pure

theorem Keeps.attempt {handler : ε → Action σ ε α} (hc : Keeps I c)
    (hh : ∀ e, Keeps I (handler e)) : Keeps I (Effect.attempt c handler) :=
  Triple.attempt hc hh

theorem Keeps.forEach {xs : List α} {body : α → Action σ ε Unit}
    (h : ∀ x ∈ xs, Keeps I (body x)) : Keeps I (Effect.forEach xs body) := by
  induction xs with
  | nil => exact Keeps.pure
  | cons x rest ih =>
    exact Keeps.bind (h x List.mem_cons_self)
      fun _ => ih fun y hy => h y (List.mem_cons_of_mem x hy)

end Effect
