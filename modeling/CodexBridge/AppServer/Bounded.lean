import CodexBridge.AppServer.Preflight
import Mathlib.Data.Fintype.Card
import Mathlib.Tactic.FinCases

/-! # What the preflight promises

An accepted walk is a derivation: every container was entered outside itself, and the budget is
the sum of what its nodes were charged. Both encoding and length follow by induction on it.
-/

namespace CodexBridge.AppServer.Outbound

open JsonText

/-! ## Charges -/

section

variable {n : Nat} {limit : Int}

theorem stringBytesFrom_fits {size k : Nat} {s : Text} (h : stringBytesFrom limit size s = some k) :
    size ≤ k ∧ Fits (s.flatMap escape) (k - size) := by
  induction s generalizing size with
  | nil =>
    cases h
    exact ⟨Nat.le_refl k, fits_nil.mono (Nat.zero_le _)⟩
  | cons c rest ih =>
    unfold stringBytesFrom at h
    obtain ⟨w, hw, h⟩ := Option.bind_eq_some_iff.mp h
    rcases Option.ite_none_left_eq_some.mp h with ⟨_, h⟩
    obtain ⟨hle, hrest⟩ := ih h
    have hescape : Fits (escape c) w := by
      by_cases hpair : c.val = 0x22 ∨ c.val = 0x5C
      · rw [if_pos hpair] at hw
        cases hw
        have hwidth : utf8Width c = some 1 := by
          unfold utf8Width
          rw [if_pos (by omega)]
        have hfits := fits_escape hwidth
        rw [if_pos hpair] at hfits
        exact hfits
      · rw [if_neg hpair] at hw
        by_cases hcontrol : c.val < 0x20
        · rw [if_pos hcontrol] at hw
          cases hw
          have hwidth : utf8Width c = some 1 := by
            unfold utf8Width
            rw [if_pos (by omega)]
          have hfits := fits_escape hwidth
          rw [if_neg hpair, if_pos hcontrol] at hfits
          exact hfits
        · rw [if_neg hcontrol] at hw
          have hwidth : utf8Width c = some w := hw
          have hfits := fits_escape hwidth
          rw [if_neg hpair, if_neg hcontrol] at hfits
          exact hfits
    refine ⟨by omega, ?_⟩
    rw [List.flatMap_cons]
    exact (hescape.append hrest).mono (by omega)

theorem stringBytes_fits {k : Nat} {s : Text} (h : stringBytes limit s = some k) :
    Fits (quote s) k := by
  unfold stringBytes at h
  split at h
  · cases h
  obtain ⟨hle, hfits⟩ := stringBytesFrom_fits h
  have hquote : Fits (ofChars ['"']) 1 := fits_ofChars (.cons (by decide) isAscii_nil)
  exact ((hquote.append hfits).append hquote).mono (by omega)

def scalarCost (limit : Int) : Value n → Option Nat
  | .null => some 4
  | .bool b => some (if b then 4 else 5)
  | .str s => stringBytes limit s
  | .int i => some (max 1 (bitLength i) + 2)
  | .float _ => some 32
  | .ref _ => none

def keyCost (limit : Int) (key : Text) : Nat := (stringBytes limit key).getD 0

def Container.cost (limit : Int) (c : Container n) : Nat :=
  2 + (c.length - 1) + c.keys.length + (c.keys.map (keyCost limit)).sum

def Container.HasKeys (limit : Int) (c : Container n) : Prop :=
  ∀ key ∈ c.keys, (stringBytes limit key).isSome = true

theorem pushEntries_spec {depth budget charged : Nat} {entries : List (Text × Value n)}
    {stack pushed : List (Frame n)}
    (h : pushEntries limit depth entries budget stack = some (charged, pushed)) :
    charged = budget + ((entries.map Prod.fst).map (keyCost limit)).sum ∧
      pushed = (entries.map fun e => .enter e.2 (depth + 1)).reverse ++ stack ∧
      ∀ key ∈ entries.map Prod.fst, (stringBytes limit key).isSome = true := by
  induction entries generalizing budget stack with
  | nil =>
    cases h
    exact ⟨rfl, rfl, fun _ hk => by cases hk⟩
  | cons e rest ih =>
    obtain ⟨key, value⟩ := e
    unfold pushEntries at h
    obtain ⟨size, hsize, h⟩ := Option.bind_eq_some_iff.mp h
    split at h
    · cases h
    obtain ⟨hcharged, hpushed, hkeys⟩ := ih h
    have hcost : keyCost limit key = size := by
      unfold keyCost
      rw [hsize, Option.getD_some]
    refine ⟨?_, ?_, fun other hother => ?_⟩
    · rw [hcharged, List.map_cons, List.map_cons, List.sum_cons, hcost]
      omega
    · rw [hpushed]
      simp
    · rcases List.mem_cons.mp hother with hsame | hother
      · have hsame : other = key := hsame
        rw [hsame, hsize]
        rfl
      · exact hkeys other hother

theorem enterContainer_spec {nodes budget depth charged : Nat} {c : Container n}
    {stack pushed : List (Frame n)}
    (h : enterContainer limit nodes budget depth c stack = some (charged, pushed)) :
    charged = budget + c.cost limit ∧ c.HasKeys limit ∧
      pushed = c.children.map (.enter · (depth + 1)) ++ stack := by
  unfold enterContainer at h
  cases c with
  | list items =>
    dsimp only at h
    obtain ⟨_, h⟩ := Option.ite_none_left_eq_some.mp h
    cases h
    refine ⟨?_, fun key hkey => absurd hkey (List.not_mem_nil), rfl⟩
    simp [Container.cost, Container.keys]
    omega
  | tuple items =>
    dsimp only at h
    obtain ⟨_, h⟩ := Option.ite_none_left_eq_some.mp h
    cases h
    refine ⟨?_, fun key hkey => absurd hkey (List.not_mem_nil), rfl⟩
    simp [Container.cost, Container.keys]
    omega
  | dict entries =>
    dsimp only at h
    obtain ⟨_, h⟩ := Option.ite_none_left_eq_some.mp h
    obtain ⟨hcharged, hpushed, hkeys⟩ := pushEntries_spec h
    have hlength : (Container.dict entries).length = (Container.dict entries).keys.length := by
      simp [Container.length, Container.children, Container.keys]
    refine ⟨?_, fun key hkey => hkeys key ?_, ?_⟩
    · have hsum : ((entries.entries.reverse.map Prod.fst).map (keyCost limit)).sum =
          ((Container.dict entries).keys.map (keyCost limit)).sum := by
        rw [List.map_reverse, List.map_reverse, List.sum_reverse]
        rfl
      rw [hcharged, hsum]
      unfold Container.cost
      omega
    · rw [List.map_reverse, List.mem_reverse]
      exact hkey
    · rw [hpushed, List.map_reverse, List.reverse_reverse]
      unfold Container.children
      rw [List.map_map]
      rfl

theorem enterValue_cases {objects : Objects n} {w next : Walk n} {value : Value n} {depth : Nat}
    {rest : List (Frame n)} (h : enterValue objects limit w value depth rest = some next) :
    w.nodes + 1 ≤ nodeLimit limit ∧ (next.budget : Int) ≤ limit ∧
      ((∃ c, scalarCost limit value = some c ∧ next = ⟨w.budget + c, w.nodes + 1, w.active, rest⟩) ∨
        ∃ object, value = .ref object ∧ object ∉ w.active ∧ (objects object).HasKeys limit ∧
          next = ⟨w.budget + (objects object).cost limit, w.nodes + 1, object :: w.active,
            (objects object).children.map (.enter · (depth + 1)) ++ .leave object :: rest⟩) := by
  unfold enterValue at h
  obtain ⟨hroom, h⟩ := Option.ite_none_left_eq_some.mp h
  obtain ⟨charged, hcharged, h⟩ := Option.bind_eq_some_iff.mp h
  obtain ⟨hbudget, h⟩ := Option.ite_none_left_eq_some.mp h
  cases h
  refine ⟨by omega, by omega, ?_⟩
  cases value with
  | null =>
    cases hcharged
    exact .inl ⟨4, rfl, rfl⟩
  | bool b =>
    cases hcharged
    exact .inl ⟨_, rfl, rfl⟩
  | int i =>
    cases hcharged
    exact .inl ⟨_, rfl, rfl⟩
  | float f =>
    cases hcharged
    exact .inl ⟨32, rfl, rfl⟩
  | str s =>
    obtain ⟨size, hsize, rfl⟩ := Option.map_eq_some_iff.mp hcharged
    exact .inl ⟨size, hsize, rfl⟩
  | ref object =>
    obtain ⟨hfresh, hcharged⟩ := Option.ite_none_left_eq_some.mp hcharged
    obtain ⟨⟨total, pushed⟩, hpushed, rfl⟩ := Option.map_eq_some_iff.mp hcharged
    obtain ⟨rfl, hkeys, rfl⟩ := enterContainer_spec hpushed
    exact .inr ⟨object, rfl, hfresh, hkeys, rfl⟩

end

section

variable {n : Nat} {objects : Objects n} {limit : Int}

def leaving : List (Frame n) → Nat
  | [] => 0
  | .enter _ _ :: rest => leaving rest
  | .leave _ :: rest => leaving rest + 1

theorem leaving_enter (values : List (Value n)) (depth : Nat) (rest : List (Frame n)) :
    leaving (values.map (.enter · depth) ++ rest) = leaving rest := by
  induction values with
  | nil => rfl
  | cons v values ih => exact ih

theorem run_ends {fuel : Nat} {w : Walk n}
    (h : 2 * (nodeLimit limit - w.nodes) + leaving w.stack < fuel) :
    (run objects limit fuel w).isSome = true := by
  induction fuel generalizing w with
  | zero => omega
  | succ fuel ih =>
    unfold run
    cases hstack : w.stack with
    | nil => rfl
    | cons frame rest =>
      rw [hstack] at h
      cases frame with
      | leave object =>
        apply ih
        show 2 * (nodeLimit limit - w.nodes) + leaving rest < fuel
        unfold leaving at h
        omega
      | enter value depth =>
        cases hnext : enterValue objects limit w value depth rest with
        | none =>
          dsimp only
          rw [hnext]
          rfl
        | some next =>
          dsimp only
          rw [hnext]
          obtain ⟨hroom, _, ⟨c, _, rfl⟩ | ⟨object, _, _, _, rfl⟩⟩ := enterValue_cases hnext
          · apply ih
            show 2 * (nodeLimit limit - (w.nodes + 1)) + leaving rest < fuel
            unfold leaving at h
            omega
          · apply ih
            show 2 * (nodeLimit limit - (w.nodes + 1)) + leaving (_ ++ _) < fuel
            rw [leaving_enter]
            unfold leaving at h ⊢
            omega

/-- More iterations change nothing once the loop is over. -/
theorem run_mono {fuel more : Nat} {w : Walk n} {o : Outcome}
    (h : run objects limit fuel w = some o) (hle : fuel ≤ more) :
    run objects limit more w = some o := by
  induction fuel generalizing w more with
  | zero => cases h
  | succ fuel ih =>
    obtain ⟨more, rfl⟩ : ∃ k, more = k + 1 := ⟨more - 1, by omega⟩
    unfold run at h ⊢
    cases hstack : w.stack with
    | nil =>
      rw [hstack] at h
      exact h
    | cons frame rest =>
      rw [hstack] at h
      cases frame with
      | leave object => exact ih h (by omega)
      | enter value depth =>
        dsimp only at h ⊢
        cases hnext : enterValue objects limit w value depth rest with
        | none =>
          rw [hnext] at h
          exact h
        | some next =>
          rw [hnext] at h
          exact ih h (by omega)

theorem preflight_ends (objects : Objects n) (limit : Int) (value : Value n) :
    ∃ o, Preflight objects limit value o := by
  have hends : (run objects limit (2 * nodeLimit limit + 1)
      ⟨0, 0, [], [.enter value 0]⟩).isSome = true := by
    apply run_ends
    show 2 * (nodeLimit limit - 0) + 0 < 2 * nodeLimit limit + 1
    omega
  obtain ⟨o, ho⟩ := Option.isSome_iff_exists.mp hends
  exact ⟨o, _, ho⟩

theorem Preflight.unique {value : Value n} {o o' : Outcome} (h : Preflight objects limit value o)
    (h' : Preflight objects limit value o') : o = o' := by
  obtain ⟨fuel, h⟩ := h
  obtain ⟨fuel', h'⟩ := h'
  have hlong := run_mono h (Nat.le_max_left fuel fuel')
  rw [run_mono h' (Nat.le_max_right fuel fuel')] at hlong
  exact (Option.some.inj hlong).symm

end

/-- Below the active containers, the values are walked with this total charge. -/
inductive Accepts {n : Nat} (objects : Objects n) (limit : Int) :
    List (Fin n) → List (Value n) → Nat → Prop
  | nil {active} : Accepts objects limit active [] 0
  | scalar {active value values c d} (hcost : scalarCost limit value = some c)
      (hrest : Accepts objects limit active values d) :
      Accepts objects limit active (value :: values) (c + d)
  | container {active object values d e} (hfresh : object ∉ active)
      (hkeys : (objects object).HasKeys limit)
      (hchildren : Accepts objects limit (object :: active) (objects object).children d)
      (hrest : Accepts objects limit active values e) :
      Accepts objects limit active (.ref object :: values) ((objects object).cost limit + d + e)

section

variable {n : Nat} {objects : Objects n} {limit : Int} {active : List (Fin n)}
  {values : List (Value n)}

/-- An accepted walk over some values and then the rest of the stack first derives the charge
of the values and then accepts the rest. -/
theorem accepts_of_run (fuel : Nat) {budget nodes depth : Nat} {rest : List (Frame n)}
    (hbudget : (budget : Int) ≤ limit ∨ values ≠ []) (h : run objects limit fuel
      ⟨budget, nodes, active, values.map (.enter · depth) ++ rest⟩ = some .accepted) :
    ∃ c, Accepts objects limit active values c ∧ ((budget + c : Nat) : Int) ≤ limit ∧
      ∃ less nodes', less ≤ fuel ∧
        run objects limit less ⟨budget + c, nodes', active, rest⟩ = some .accepted := by
  induction fuel using Nat.strong_induction_on generalizing values budget nodes depth rest active
    with
  | _ fuel ih =>
    cases values with
    | nil =>
      rcases hbudget with hle | hne
      · exact ⟨0, .nil, hle, fuel, nodes, Nat.le_refl fuel, h⟩
      · exact absurd rfl hne
    | cons value values =>
      cases fuel with
      | zero => cases h
      | succ fuel =>
        have hstep : (enterValue objects limit ⟨budget, nodes, active,
            .enter value depth :: (values.map (.enter · depth) ++ rest)⟩ value depth
              (values.map (.enter · depth) ++ rest)).elim (some .rejected)
                (run objects limit fuel) = some .accepted := by
          unfold run at h
          simp only [List.map_cons, List.cons_append] at h
          split at h
          · cases h
          rename_i next hnext
          rw [hnext]
          exact h
        cases hnext : enterValue objects limit ⟨budget, nodes, active,
            .enter value depth :: (values.map (.enter · depth) ++ rest)⟩ value depth
              (values.map (.enter · depth) ++ rest) with
        | none =>
          rw [hnext] at hstep
          cases hstep
        | some next =>
          rw [hnext] at hstep
          have hrun : run objects limit fuel next = some .accepted := hstep
          obtain ⟨_, hcharged, ⟨c, hcost, rfl⟩ | ⟨object, rfl, hfresh, hkeys, rfl⟩⟩ :=
            enterValue_cases hnext
          · obtain ⟨d, hd, hle, less, nodes', hless, hrest⟩ :=
              ih fuel (Nat.lt_succ_self fuel) (.inl hcharged) hrun
            refine ⟨c + d, .scalar hcost hd, ?_, less, nodes', by omega, ?_⟩
            · rw [← Nat.add_assoc]
              exact hle
            · rw [← Nat.add_assoc]
              exact hrest
          · -- the children come first, then the mark that leaves the container
            obtain ⟨d, hd, hle, less, nodes', hless, hleave⟩ :=
              ih fuel (Nat.lt_succ_self fuel) (.inl hcharged) hrun
            cases less with
            | zero => cases hleave
            | succ less =>
              have hleft : run objects limit less
                  ⟨budget + (objects object).cost limit + d, nodes',
                    (object :: active).erase object,
                    values.map (.enter · depth) ++ rest⟩ = some .accepted := hleave
              rw [List.erase_cons_head] at hleft
              obtain ⟨e, he, hle', less', nodes'', hless', hrest⟩ :=
                ih less (by omega) (.inl hle) hleft
              have hsum : budget + ((objects object).cost limit + d + e) =
                  budget + (objects object).cost limit + d + e := by omega
              refine ⟨_, .container hfresh hkeys hd he, ?_, less', nodes'', by omega, ?_⟩
              · rw [hsum]
                exact hle'
              · rw [hsum]
                exact hrest

theorem Preflight.accepts {value : Value n} (h : Preflight objects limit value .accepted) :
    ∃ c, Accepts objects limit [] [value] c ∧ (c : Int) ≤ limit := by
  obtain ⟨fuel, h⟩ := h
  have hne : [value] ≠ [] := List.cons_ne_nil value []
  obtain ⟨c, hc, hle, _⟩ := accepts_of_run fuel (.inr hne) h
  rw [Nat.zero_add] at hle
  exact ⟨c, hc, hle⟩

theorem Accepts.mem {total : Nat} (h : Accepts objects limit active values total)
    {value : Value n} (hvalue : value ∈ values) : ∃ c, Accepts objects limit active [value] c := by
  induction h with
  | nil => cases hvalue
  | scalar hcost hrest ih =>
    rcases List.mem_cons.mp hvalue with rfl | hvalue
    · exact ⟨_, .scalar hcost .nil⟩
    · exact ih hvalue
  | container hfresh hkeys hchildren hrest ihchildren ih =>
    rcases List.mem_cons.mp hvalue with rfl | hvalue
    · exact ⟨_, .container hfresh hkeys hchildren .nil⟩
    · exact ih hvalue

theorem Accepts.child {total : Nat} {parent child : Value n}
    (h : Accepts objects limit active [parent] total) (hchild : Child objects parent child) :
    ∃ object c, parent = .ref object ∧ object ∉ active ∧
      Accepts objects limit (object :: active) [child] c := by
  obtain ⟨object, rfl, hmem⟩ := hchild
  cases h with
  | scalar hcost hrest => cases hcost
  | container hfresh hkeys hchildren hrest =>
    obtain ⟨c, hc⟩ := hchildren.mem hmem
    exact ⟨object, c, rfl, hfresh, hc⟩

theorem Accepts.occurs {total : Nat} {value x : Value n}
    (h : Accepts objects limit active [value] total) (hx : Occurs objects value x) :
    ∃ active' c, active ⊆ active' ∧ Accepts objects limit active' [x] c := by
  induction hx with
  | refl => exact ⟨active, total, fun _ hm => hm, h⟩
  | tail _ hchild ih =>
    obtain ⟨active', c, hsub, hc⟩ := ih
    obtain ⟨object, d, _, _, hd⟩ := hc.child hchild
    exact ⟨object :: active', d, fun _ hm => List.mem_cons_of_mem object (hsub hm), hd⟩

theorem Accepts.inside {total : Nat} {value x : Value n}
    (h : Accepts objects limit active [value] total)
    (hx : Relation.TransGen (Child objects) value x) :
    ∃ object active' c, value = .ref object ∧ object ∈ active' ∧
      Accepts objects limit active' [x] c := by
  obtain ⟨y, hchild, hrest⟩ := Relation.TransGen.head'_iff.mp hx
  obtain ⟨object, c, hparent, _, hc⟩ := h.child hchild
  obtain ⟨active', d, hsub, hd⟩ := hc.occurs hrest
  exact ⟨object, active', d, hparent, hsub List.mem_cons_self, hd⟩

theorem Accepts.not_cyclic {total : Nat} {value : Value n}
    (h : Accepts objects limit active [value] total) : ¬ Cyclic objects value := by
  rintro ⟨x, hx, hcycle⟩
  obtain ⟨active', c, _, hc⟩ := h.occurs hx
  obtain ⟨object, active'', d, rfl, hmem, hd⟩ := hc.inside hcycle
  cases hd with
  | scalar hcost hrest => cases hcost
  | container hfresh hkeys hchildren hrest => exact hfresh hmem

end

section

variable {n : Nat} {objects : Objects n} {limit : Int}

inductive AllFit : List Text → Nat → Prop
  | nil : AllFit [] 0
  | cons {text texts size total} (htext : Fits text size) (hrest : AllFit texts total) :
      AllFit (text :: texts) (size + total)

theorem fits_comma : Fits (ofChars [',']) 1 := fits_ofChars (.cons (by decide) isAscii_nil)

theorem AllFit.commas {texts : List Text} {total : Nat} (h : AllFit texts total) :
    Fits (commas texts) (total + (texts.length - 1)) := by
  induction h with
  | nil => exact fits_nil
  | cons htext hrest ih =>
    rename_i text texts size total
    cases texts with
    | nil =>
      cases hrest
      exact htext
    | cons second texts =>
      have hjoined := (htext.append fits_comma).append ih
      exact hjoined.mono (by simp only [List.length_cons]; omega)

/-- Members take a colon each beside their keys and values. -/
theorem AllFit.members {keys : List Text} {texts : List Text} {total : Nat}
    (h : AllFit texts total) (hlength : texts.length = keys.length)
    (hkeys : ∀ key ∈ keys, (stringBytes limit key).isSome = true) :
    AllFit (List.zipWith member keys texts)
      (total + keys.length + (keys.map (keyCost limit)).sum) := by
  induction h generalizing keys with
  | nil =>
    cases keys with
    | nil => exact .nil
    | cons key keys => cases hlength
  | cons htext hrest ih =>
    rename_i text texts size total
    cases keys with
    | nil => cases hlength
    | cons key keys =>
      have hsome := hkeys key List.mem_cons_self
      obtain ⟨charge, hcharge⟩ := Option.isSome_iff_exists.mp hsome
      have hcost : keyCost limit key = charge := by
        unfold keyCost
        rw [hcharge, Option.getD_some]
      have hcolon : Fits (ofChars [':']) 1 := fits_ofChars (.cons (by decide) isAscii_nil)
      have hmember : Fits (member key text) (charge + 1 + size) :=
        ((stringBytes_fits hcharge).append hcolon).append htext
      have hothers := ih (Nat.succ.inj hlength)
        fun other hother => hkeys other (List.mem_cons_of_mem key hother)
      have hall := AllFit.cons hmember hothers
      have htotal : charge + 1 + size +
          (total + keys.length + (keys.map (keyCost limit)).sum) =
            size + total + (key :: keys).length + ((key :: keys).map (keyCost limit)).sum := by
        rw [List.length_cons, List.map_cons, List.sum_cons, hcost]
        omega
      rw [← htotal]
      exact hall

theorem Container.fits_text {c : Container n} {texts : List Text} {total : Nat}
    (h : AllFit texts total) (hlength : texts.length = c.length) (hkeys : c.HasKeys limit) :
    Fits (c.text texts) (c.cost limit + total) := by
  have hbracket : ∀ d : Char, d.toNat ≤ 0x7F → Fits (ofChars [d]) 1 :=
    fun d hd => fits_ofChars (.cons hd isAscii_nil)
  unfold Container.cost
  cases c with
  | list items =>
    have hfits := ((hbracket '[' (by decide)).append h.commas).append (hbracket ']' (by decide))
    exact hfits.mono (by omega)
  | tuple items =>
    have hfits := ((hbracket '[' (by decide)).append h.commas).append (hbracket ']' (by decide))
    exact hfits.mono (by omega)
  | dict entries =>
    have hlength' : texts.length = (Container.dict entries).keys.length := by
      rw [hlength]
      simp [Container.length, Container.children, Container.keys]
    have hmembers := h.members hlength' hkeys
    have hcount : (List.zipWith member (Container.dict entries).keys texts).length =
        (Container.dict entries).length := by
      rw [List.length_zipWith]
      omega
    have hfits := ((hbracket '\x7b' (by decide)).append hmembers.commas).append
      (hbracket '\x7d' (by decide))
    exact hfits.mono (by omega)

/-- Every scalar that is charged can be written, if integers are short. -/
theorem dumpsAt_scalar (objects : Objects n) (levels : Nat) (markers : List (Fin n)) {c : Nat}
    {value : Value n} (hcost : scalarCost limit value = some c)
    (hshort : ∀ i, value = .int i → (decimalDigits i.natAbs).length ≤ maxStrDigits) :
    ∃ text, dumpsAt objects (levels + 1) markers value = .ok text ∧ Fits text c := by
  have hword : ∀ cs : List Char, IsAscii cs → Fits (ofChars cs) cs.length :=
    fun cs h => fits_ofChars h
  cases value with
  | null =>
    cases hcost
    exact ⟨_, rfl, hword ['n', 'u', 'l', 'l'] (.cons (by decide) (.cons (by decide)
      (.cons (by decide) (.cons (by decide) isAscii_nil))))⟩
  | bool b =>
    cases b with
    | true =>
      cases hcost
      exact ⟨_, rfl, hword ['t', 'r', 'u', 'e'] (.cons (by decide) (.cons (by decide)
        (.cons (by decide) (.cons (by decide) isAscii_nil))))⟩
    | false =>
      cases hcost
      exact ⟨_, rfl, hword ['f', 'a', 'l', 's', 'e'] (.cons (by decide) (.cons (by decide)
        (.cons (by decide) (.cons (by decide) (.cons (by decide) isAscii_nil)))))⟩
  | int i =>
    cases hcost
    have hdigits := hshort i rfl
    refine ⟨integer i, ?_, (fits_integer i).mono (by omega)⟩
    show (if (decimalDigits i.natAbs).length > maxStrDigits then _ else _) = _
    rw [if_neg (by omega)]
  | float f =>
    cases hcost
    exact ⟨f.text, rfl, f.fits_text.mono (by decide)⟩
  | str s => exact ⟨quote s, rfl, stringBytes_fits hcost⟩
  | ref object => cases hcost

theorem mapM_cons_ok {ε α β : Type} {f : α → Except ε β} {a : α} {as : List α} {b : β}
    {bs : List β} (ha : f a = .ok b) (has : as.mapM f = .ok bs) :
    (a :: as).mapM f = .ok (b :: bs) := by
  rw [List.mapM_cons, ha, has]
  rfl

/-- Values that were walked are encoded within their charge. The active containers are the
markers of the encoder, which therefore never meets one again nor runs out of levels. -/
theorem Accepts.dumps {active : List (Fin n)} {values : List (Value n)} {total : Nat}
    (h : Accepts objects limit active values total) (hnodup : active.Nodup) {levels : Nat}
    (hlevels : n < levels + active.length)
    (hshort : ∀ value ∈ values, ShortIntegers objects value) :
    ∃ texts, values.mapM (dumpsAt objects levels active) = .ok texts ∧
      texts.length = values.length ∧ AllFit texts total := by
  induction h generalizing levels with
  | nil => exact ⟨[], rfl, rfl, .nil⟩
  | scalar hcost hrest ih =>
    rename_i active value values c d
    have hroom : active.length ≤ n := by
      have hle := hnodup.length_le_card
      rw [Fintype.card_fin] at hle
      exact hle
    obtain ⟨more, rfl⟩ : ∃ more, levels = more + 1 := ⟨levels - 1, by omega⟩
    obtain ⟨text, htext, hfits⟩ := dumpsAt_scalar objects more active hcost fun i hi =>
      hshort value List.mem_cons_self i (hi ▸ Relation.ReflTransGen.refl)
    obtain ⟨texts, htexts, hlength, hall⟩ := ih hnodup hlevels
      fun v hv => hshort v (List.mem_cons_of_mem value hv)
    exact ⟨text :: texts, mapM_cons_ok htext htexts, congrArg Nat.succ hlength,
      .cons hfits hall⟩
  | container hfresh hkeys hchildren hrest ihchildren ih =>
    rename_i active object values d e
    have hnodup' : (object :: active).Nodup := List.nodup_cons.mpr ⟨hfresh, hnodup⟩
    have hroom : (object :: active).length ≤ n := by
      have hle := hnodup'.length_le_card
      rw [Fintype.card_fin] at hle
      exact hle
    rw [List.length_cons] at hroom
    obtain ⟨more, rfl⟩ : ∃ more, levels = more + 1 := ⟨levels - 1, by omega⟩
    have hbelow : ∀ child ∈ (objects object).children, ShortIntegers objects child := by
      intro child hchild i hi
      exact hshort (.ref object) List.mem_cons_self i (.head ⟨object, rfl, hchild⟩ hi)
    have hmore : n < more + (object :: active).length := by
      rw [List.length_cons]
      omega
    obtain ⟨inner, hinner, hcount, hfit⟩ := ihchildren hnodup' hmore hbelow
    have htext : dumpsAt objects (more + 1) active (.ref object) =
        .ok ((objects object).text inner) := by
      show (if object ∈ active then _ else _) = _
      rw [if_neg hfresh, hinner]
      rfl
    obtain ⟨texts, htexts, hlength, hall⟩ := ih hnodup hlevels
      fun v hv => hshort v (List.mem_cons_of_mem _ hv)
    exact ⟨_ :: texts, mapM_cons_ok htext htexts, congrArg Nat.succ hlength,
      .cons (Container.fits_text hfit hcount hkeys) hall⟩

end

/-- The preflight ends in one way for every value and every limit. It rejects each cyclic value,
and what it accepts is encoded within the limit, unless an integer is too long to be written. -/
theorem preflight_sound {n : Nat} (objects : Objects n) (limit : Int) (value : Value n) :
    (∃! o, Preflight objects limit value o) ∧
      (Cyclic objects value → Preflight objects limit value .rejected) ∧
      (Preflight objects limit value .accepted → ShortIntegers objects value →
        ∃ text size, dumps objects value = .ok text ∧ utf8Length text = some size ∧
          (size : Int) ≤ limit) := by
  obtain ⟨o, ho⟩ := preflight_ends objects limit value
  refine ⟨⟨o, ho, fun o' ho' => ho'.unique ho⟩, fun hcyclic => ?_, fun haccepted hshort => ?_⟩
  · cases o with
    | rejected => exact ho
    | accepted =>
      obtain ⟨c, hc, _⟩ := ho.accepts
      exact absurd hcyclic hc.not_cyclic
  · obtain ⟨c, hc, hle⟩ := haccepted.accepts
    have hlevels : n < n + 1 + ([] : List (Fin n)).length := Nat.lt_succ_self n
    obtain ⟨texts, htexts, hlength, hfit⟩ := hc.dumps List.nodup_nil hlevels fun v hv => by
      rw [List.mem_singleton.mp hv]
      exact hshort
    cases texts with
    | nil => cases hlength
    | cons text rest =>
      have hone : dumps objects value = .ok text := by
        rw [List.mapM_cons, List.mapM_nil] at htexts
        unfold dumps
        cases hdumps : dumpsAt objects (n + 1) [] value with
        | error e =>
          rw [hdumps] at htexts
          cases htexts
        | ok found =>
          rw [hdumps] at htexts
          cases htexts
          rfl
      cases hfit with
      | cons htext hrest =>
        obtain ⟨size, hsize, hbound⟩ := htext
        exact ⟨text, size, hone, hsize, by omega⟩

theorem shortIntegers_of_children {n : Nat} {objects : Objects n} (object : Fin n)
    (h : ∀ o i, .int i ∈ (objects o).children → (decimalDigits i.natAbs).length ≤ maxStrDigits) :
    ShortIntegers objects (.ref object) := by
  intro i hi
  rcases Relation.ReflTransGen.cases_tail hi with hsame | ⟨parent, _, o, _, hmem⟩
  · cases hsame
  · exact h o i hmem

def sampleObjects : Objects 3
  | 0 => .list [.ref 1, .ref 1, .int (-12)]
  | 1 => .dict (.ofList [(ofChars ['a', '"'], .null)])
  | 2 => .tuple [.ref 2]

theorem preflight_sound_sample :
    Preflight sampleObjects 60 (.ref 2) .rejected ∧
      ∃ text size, dumps sampleObjects (.ref 0) = .ok text ∧ utf8Length text = some size ∧
        (size : Int) ≤ 60 := by
  have hshort : ShortIntegers sampleObjects (.ref 0) := by
    apply shortIntegers_of_children
    intro o i hi
    fin_cases o
    · have hvalue : i = -12 := by
        simpa [sampleObjects, Container.children] using hi
      rw [hvalue]
      decide
    · have hnull : Value.int i ∈ [Value.null] := hi
      cases List.mem_singleton.mp hnull
    · have href : Value.int i ∈ [Value.ref (2 : Fin 3)] := hi
      cases List.mem_singleton.mp href
  have hcyclic : Cyclic sampleObjects (.ref 2) :=
    ⟨.ref 2, .refl, .single ⟨2, rfl, List.mem_singleton_self _⟩⟩
  exact ⟨(preflight_sound sampleObjects 60 (.ref 2)).2.1 hcyclic,
    (preflight_sound sampleObjects 60 (.ref 0)).2.2 ⟨20, by decide +kernel⟩ hshort⟩

theorem preflight_int {n : Nat} (objects : Objects n) (limit : Int) (i : Int)
    (h : ((max 1 (bitLength i) + 2 : Nat) : Int) ≤ limit) :
    Preflight objects limit (.int i) .accepted := by
  have hnodes : ¬ (0 + 1 > nodeLimit limit ∨ 0 > 128) := by
    unfold nodeLimit
    omega
  have hbudget : ¬ ((0 + (max 1 (bitLength i) + 2) : Nat) : Int) > limit := by omega
  have henter : enterValue objects limit ⟨0, 0, [], [.enter (.int i) 0]⟩ (.int i) 0 [] =
      some ⟨0 + (max 1 (bitLength i) + 2), 1, [], []⟩ := by
    unfold enterValue
    rw [if_neg hnodes]
    exact if_neg hbudget
  refine ⟨2, ?_⟩
  unfold run
  dsimp only
  rw [henter]
  rfl

theorem dumps_long_int {n : Nat} (objects : Objects n) (i : Int)
    (h : maxStrDigits < (decimalDigits i.natAbs).length) :
    dumps objects (.int i) = .error .digits :=
  if_pos h

def longInteger : Int := ((10 ^ 4300 : Nat) : Int)

/-- An integer of 4301 digits is accepted and cannot be written. -/
theorem preflight_accepts_long_integer :
    Preflight sampleObjects 20000 (.int longInteger) .accepted ∧
      dumps sampleObjects (.int longInteger) = .error .digits := by
  have hbits : ((max 1 (bitLength longInteger) + 2 : Nat) : Int) ≤ 20000 := by decide +kernel
  have hdigits : maxStrDigits < (decimalDigits longInteger.natAbs).length := by
    unfold longInteger
    rw [Int.natAbs_natCast]
    by_contra hle
    have hlt := (Nat.length_toDigits_le_iff (by decide : 1 < 10)
      (by decide : 0 < maxStrDigits)).mp (Nat.le_of_not_lt hle)
    exact absurd hlt (Nat.lt_irrefl _)
  exact ⟨preflight_int sampleObjects 20000 longInteger hbits,
    dumps_long_int sampleObjects longInteger hdigits⟩

end CodexBridge.AppServer.Outbound
