import Mathlib.Data.List.Infix

/-! # Replacing patterns in a stream

Patterns are tried in a fixed order at each place from the left. A stream arrives in chunks;
between two of them only a tail that may begin a pattern is held back.
-/

namespace Redact

variable {α : Type} [DecidableEq α]

/-! ## Searching -/

def pick (ps : List (List α)) (data : List α) : Option (List α) := ps.find? (·.isPrefixOf data)

def search (ps : List (List α)) : List α → Option (List α × List α × List α)
  | [] => (pick ps []).map fun m => ([], m, [])
  | b :: rest =>
    match pick ps (b :: rest) with
    | some m => some ([], m, (b :: rest).drop m.length)
    | none => (search ps rest).map fun found => (b :: found.1, found.2)

/-- A part of the stream as it is passed on. -/
inductive Segment (α : Type)
  | copied (bytes : List α)
  | redacted (bytes : List α)

/-- The matches from left to right with what lies between them, and the tail after the last. -/
def segments (ps : List (List α)) : Nat → List α → List (Segment α) × List α
  | 0, data => ([], data)
  | fuel + 1, data =>
    match search ps data with
    | none => ([], data)
    | some (before, m, after) =>
      let rest := segments ps fuel after
      (.copied before :: .redacted m :: rest.1, rest.2)

def lastOf (n : Nat) (tail : List α) : List α := tail.drop (tail.length - n)

/-- The longest suffix of at most `n` elements that begins the pattern, if it is longer than
`keep`. -/
def suffixLength (pattern tail : List α) (keep : Nat) : Nat → Nat
  | 0 => keep
  | n + 1 =>
    if n + 1 ≤ keep then keep
    else if (lastOf (n + 1) tail).isPrefixOf pattern then n + 1
    else suffixLength pattern tail keep n

/-- The loop over the patterns, from some value of `keep`. -/
def keepFrom (tail : List α) (keep : Nat) (ps : List (List α)) : Nat :=
  ps.foldl (fun keep p => suffixLength p tail keep (min tail.length (p.length - 1))) keep

/-- The longest suffix that properly begins a pattern. -/
def keepLength (ps : List (List α)) (tail : List α) : Nat := keepFrom tail 0 ps

def feed (ps : List (List α)) (pending chunk : List α) (final : Bool) : List (Segment α) × List α :=
  let data := pending ++ chunk
  let found := segments ps data.length data
  let tail := found.2
  let keep := if final then 0 else keepLength ps tail
  (found.1 ++ [.copied (tail.take (tail.length - keep))], lastOf keep tail)

def feedAll (ps : List (List α)) (pending : List α) : List (List α) → List (Segment α)
  | [] => (feed ps pending [] true).1
  | chunk :: rest =>
    let fed := feed ps pending chunk false
    fed.1 ++ feedAll ps fed.2 rest

def sources : List (Segment α) → List α
  | [] => []
  | .copied bytes :: rest => bytes ++ sources rest
  | .redacted bytes :: rest => bytes ++ sources rest

def render (marker : List α) : List (Segment α) → List α
  | [] => []
  | .copied bytes :: rest => bytes ++ render marker rest
  | .redacted _ :: rest => marker ++ render marker rest

/-- For each element of the stream whether it was replaced. -/
def marks : List (Segment α) → List Bool
  | [] => []
  | .copied bytes :: rest => List.replicate bytes.length false ++ marks rest
  | .redacted bytes :: rest => List.replicate bytes.length true ++ marks rest

section

variable (segs more : List (Segment α)) (marker : List α)

omit [DecidableEq α]

@[simp] theorem sources_append : sources (segs ++ more) = sources segs ++ sources more := by
  induction segs with
  | nil => rfl
  | cons s segs ih => cases s <;> simp [sources, ih]

@[simp] theorem render_append :
    render marker (segs ++ more) = render marker segs ++ render marker more := by
  induction segs with
  | nil => rfl
  | cons s segs ih => cases s <;> simp [render, ih]

@[simp] theorem marks_append : marks (segs ++ more) = marks segs ++ marks more := by
  induction segs with
  | nil => rfl
  | cons s segs ih => cases s <;> simp [marks, ih]

@[simp] theorem marks_length : (marks segs).length = (sources segs).length := by
  induction segs with
  | nil => rfl
  | cons s segs ih => cases s <;> simp [marks, sources, ih]

theorem render_ne_nil {segs : List (Segment α)} {marker : List α} (hmarker : marker ≠ [])
    (h : sources segs ≠ []) : render marker segs ≠ [] := by
  induction segs with
  | nil => exact absurd rfl h
  | cons s segs ih =>
    cases s with
    | redacted bytes => simp [render, hmarker]
    | copied bytes =>
      intro hnil
      obtain ⟨hbytes, hrest⟩ := List.append_eq_nil_iff.mp hnil
      have hsources : sources segs ≠ [] := by
        intro hempty
        exact h (by simp [sources, hbytes, hempty])
      exact ih hsources hrest

end

/-- No pattern is empty, and longer ones are tried first. -/
structure Ordered (ps : List (List α)) : Prop where
  nonempty : ∀ p ∈ ps, p ≠ []
  sorted : ps.Pairwise fun p q => q.length ≤ p.length

def EndsInside (ps : List (List α)) : Prop :=
  ∃ a ∈ ps, ∃ b ∈ ps, ∃ x y, a = x ++ b ++ y ∧ y ≠ []

instance decidableInside (a b : List α) : Decidable (∃ x y, a = x ++ b ++ y ∧ y ≠ []) :=
  decidable_of_iff (∃ n ∈ List.range a.length, b.isPrefixOf (a.drop n) = true ∧
    n + b.length < a.length) (by
      constructor
      · rintro ⟨n, hn, hpre, hlt⟩
        obtain ⟨y, hy⟩ := List.isPrefixOf_iff_prefix.mp hpre
        refine ⟨a.take n, y, ?_, ?_⟩
        · rw [List.append_assoc, hy, List.take_append_drop]
        · rintro rfl
          have hlength := congrArg List.length hy
          simp at hlength
          omega
      · rintro ⟨x, y, rfl, hy⟩
        have hpos := List.length_pos_iff.mpr hy
        refine ⟨x.length, ?_, ?_, ?_⟩
        · rw [List.mem_range]
          simp only [List.length_append]
          omega
        · rw [List.append_assoc, List.drop_left]
          exact List.isPrefixOf_iff_prefix.mpr (List.prefix_append _ _)
        · simp only [List.length_append]
          omega)

instance decidableEndsInside (ps : List (List α)) : Decidable (EndsInside ps) := by
  unfold EndsInside
  infer_instance

section

variable {ps : List (List α)} {data f m p : List α}

theorem pick_none (h : pick ps data = none) (hp : p ∈ ps) : ¬ p <+: data := by
  intro hpre
  have hno := List.find?_eq_none.mp h p hp
  exact hno (List.isPrefixOf_iff_prefix.mpr hpre)

theorem pick_mem (h : pick ps data = some m) : m ∈ ps ∧ m <+: data := by
  have hstarts := (List.find?_eq_some_iff_append.mp h).1
  exact ⟨List.mem_of_find?_eq_some h, List.isPrefixOf_iff_prefix.mp hstarts⟩

theorem pick_isSome (hp : p ∈ ps) (hpre : p <+: data) : ∃ m, pick ps data = some m := by
  cases h : pick ps data with
  | none => exact absurd hpre (pick_none h hp)
  | some m => exact ⟨m, rfl⟩

theorem Ordered.pick_longest (ho : Ordered ps) (h : pick ps data = some m) (hp : p ∈ ps)
    (hpre : p <+: data) : p.length ≤ m.length := by
  obtain ⟨_, as, bs, rfl, hbefore⟩ := List.find?_eq_some_iff_append.mp h
  rcases List.mem_append.mp hp with hp | hp
  · have hno := hbefore p hp
    rw [List.isPrefixOf_iff_prefix.mpr hpre] at hno
    cases hno
  rcases List.mem_cons.mp hp with rfl | hp
  · exact Nat.le_refl _
  · have hpair := (List.pairwise_append.mp ho.sorted).2.1
    exact (List.pairwise_cons.mp hpair).1 p hp

omit [DecidableEq α] in
/-- A prefix of two parts lies in the first or runs over its end. -/
theorem prefix_append_cases (h : p <+: data ++ f) : p <+: data ∨ ∃ y, y ≠ [] ∧ p = data ++ y := by
  by_cases hle : p.length ≤ data.length
  · exact .inl (List.prefix_of_prefix_length_le h (List.prefix_append data f) hle)
  obtain ⟨y, hy⟩ := List.prefix_of_prefix_length_le (List.prefix_append data f) h (by omega)
  refine .inr ⟨y, ?_, hy.symm⟩
  rintro rfl
  rw [← hy, List.append_nil] at hle
  exact hle (Nat.le_refl _)

/-- More data after a match does not change the pick, unless the match lies in a pattern that
ends later. -/
theorem Ordered.pick_append (ho : Ordered ps) (h : pick ps data = some m)
    (hf : f = [] ∨ ¬ EndsInside ps) : pick ps (data ++ f) = some m := by
  rcases hf with rfl | hinside
  · rw [List.append_nil]
    exact h
  obtain ⟨hm, hpre⟩ := pick_mem h
  obtain ⟨m', hm'⟩ := pick_isSome hm (hpre.trans (List.prefix_append data f))
  obtain ⟨hmem', hpre'⟩ := pick_mem hm'
  rcases prefix_append_cases hpre' with hdata | ⟨y, hy, rfl⟩
  · have hle := ho.pick_longest h hmem' hdata
    have hge := ho.pick_longest hm' hm (hpre.trans (List.prefix_append data f))
    have hsame := (List.prefix_of_prefix_length_le hdata hpre hle).eq_of_length
      (Nat.le_antisymm hle hge)
    rw [hm', hsame]
  obtain ⟨z, hz⟩ := hpre
  refine absurd ⟨data ++ y, hmem', m, hm, [], z ++ y, ?_, ?_⟩ hinside
  · rw [← hz]
    simp
  · intro hnil
    exact hy (List.append_eq_nil_iff.mp hnil).2

end

/-- The output of the whole stream; `none` stands for a marker. -/
def items (ps : List (List α)) : List α → List (Option α)
  | [] => []
  | b :: rest =>
    match pick ps (b :: rest) with
    | some m => none :: items ps (rest.drop (m.length - 1))
    | none => some b :: items ps rest
termination_by data => data.length
decreasing_by
  · simp only [List.length_drop, List.length_cons]
    omega
  · simp

def itemsOf : List (Segment α) → List (Option α)
  | [] => []
  | .copied bytes :: rest => bytes.map some ++ itemsOf rest
  | .redacted _ :: rest => none :: itemsOf rest

omit [DecidableEq α] in
@[simp] theorem itemsOf_append (segs more : List (Segment α)) :
    itemsOf (segs ++ more) = itemsOf segs ++ itemsOf more := by
  induction segs with
  | nil => rfl
  | cons s segs ih => cases s <;> simp [itemsOf, ih]

omit [DecidableEq α] in
theorem render_eq_flatMap (marker : List α) (segs : List (Segment α)) :
    render marker segs = (itemsOf segs).flatMap fun item => item.elim marker fun b => [b] := by
  induction segs with
  | nil => rfl
  | cons s segs ih =>
    cases s with
    | copied bytes =>
      have hbytes : (bytes.map some).flatMap (fun item : Option α => item.elim marker
          fun b => [b]) = bytes := by
        induction bytes with
        | nil => rfl
        | cons b bytes ihb => simp [ihb]
      simp only [render, itemsOf, List.flatMap_append, hbytes, ih]
    | redacted bytes => simp [render, itemsOf, ih]

section

variable {ps : List (List α)} {data f m : List α}

@[simp] theorem items_nil : items ps [] = [] := by
  unfold items
  rfl

theorem items_copy {b : α} (h : pick ps (b :: data) = none) :
    items ps (b :: data) = some b :: items ps data := by
  rw [items, h]

theorem Ordered.items_match (ho : Ordered ps) (h : pick ps data = some m) :
    items ps data = none :: items ps (data.drop m.length) := by
  have hne := ho.nonempty m (pick_mem h).1
  cases data with
  | nil => exact absurd (List.prefix_nil.mp (pick_mem h).2) hne
  | cons b data =>
    have hpos := List.length_pos_iff.mpr hne
    have hlength : m.length = m.length - 1 + 1 := by omega
    rw [items, h, hlength, List.drop_succ_cons]

/-- Where no pattern starts the stream is copied. -/
theorem items_skip {n : Nat} (h : ∀ j < n, pick ps (data.drop j) = none) (hn : n ≤ data.length) :
    items ps data = (data.take n).map some ++ items ps (data.drop n) := by
  induction n generalizing data with
  | zero => simp
  | succ n ih =>
    cases data with
    | nil => simp at hn
    | cons b data =>
      have hfirst := h 0 (Nat.succ_pos n)
      have hrest : ∀ j < n, pick ps (data.drop j) = none := fun j hj => h (j + 1) (by omega)
      rw [items_copy hfirst, ih hrest (Nat.le_of_succ_le_succ hn)]
      rfl

end

section

variable {ps : List (List α)} {data before m after f : List α}

theorem search_none (h : search ps data = none) {j : Nat} (hj : j < data.length) :
    pick ps (data.drop j) = none := by
  induction data generalizing j with
  | nil => simp at hj
  | cons b rest ih =>
    unfold search at h
    split at h
    · cases h
    rename_i hpick
    cases j with
    | zero => exact hpick
    | succ j => exact ih (Option.map_eq_none_iff.mp h) (Nat.lt_of_succ_lt_succ hj)

theorem search_some (h : search ps data = some (before, m, after)) :
    data = before ++ (m ++ after) ∧ pick ps (m ++ after) = some m ∧
      ∀ j < before.length, pick ps (data.drop j) = none := by
  have hhead : ∀ {d : List α}, pick ps d = some m → after = d.drop m.length → d = m ++ after := by
    intro d hpick hafter
    obtain ⟨z, hz⟩ := (pick_mem hpick).2
    rw [hafter, ← hz, List.drop_left]
  induction data generalizing before with
  | nil =>
    obtain ⟨found, hfound, hsame⟩ := Option.map_eq_some_iff.mp h
    cases hsame
    have hd := hhead hfound (by simp)
    rw [← hd]
    exact ⟨rfl, hfound, fun j hj => absurd hj (Nat.not_lt_zero j)⟩
  | cons b rest ih =>
    unfold search at h
    split at h
    · rename_i found hpick
      cases h
      have hd := hhead hpick rfl
      rw [← hd]
      exact ⟨rfl, hpick, fun j hj => absurd hj (Nat.not_lt_zero j)⟩
    rename_i hpick
    obtain ⟨⟨before', m', after'⟩, hfound, hsame⟩ := Option.map_eq_some_iff.mp h
    cases hsame
    obtain ⟨hrest, hmatch, hnone⟩ := ih hfound
    refine ⟨by rw [List.cons_append, ← hrest], hmatch, fun j hj => ?_⟩
    cases j with
    | zero => exact hpick
    | succ j => exact hnone j (Nat.lt_of_succ_lt_succ hj)

/-- No pattern starts in the part before the match, whatever follows, unless the match lies in a
pattern that ends later. -/
theorem search_before (h : search ps data = some (before, m, after))
    (hf : f = [] ∨ ¬ EndsInside ps) {j : Nat} (hj : j < before.length) :
    pick ps ((data ++ f).drop j) = none := by
  obtain ⟨hdata, hmatch, hnone⟩ := search_some h
  cases hpick : pick ps ((data ++ f).drop j) with
  | none => rfl
  | some p =>
    obtain ⟨hp, hpre⟩ := pick_mem hpick
    have hle : j ≤ data.length := by
      rw [hdata, List.length_append]
      omega
    rw [List.drop_append_of_le_length hle] at hpre
    rcases prefix_append_cases hpre with hinside | ⟨y, hy, hpy⟩
    · exact absurd hinside (pick_none (hnone j hj) hp)
    rcases hf with rfl | hends
    · rw [List.append_nil] at hpre
      exact absurd hpre (pick_none (hnone j hj) hp)
    refine absurd ⟨p, hp, m, (pick_mem hmatch).1, before.drop j, after ++ y, ?_, ?_⟩ hends
    · rw [hpy, hdata, List.drop_append_of_le_length (by omega)]
      simp
    · intro hnil
      exact hy (List.append_eq_nil_iff.mp hnil).2

/-- A match that is found is a match of the whole stream. -/
theorem Ordered.items_search (ho : Ordered ps) (h : search ps data = some (before, m, after))
    (hf : f = [] ∨ ¬ EndsInside ps) :
    items ps (data ++ f) = before.map some ++ none :: items ps (after ++ f) := by
  obtain ⟨hdata, hmatch, _⟩ := search_some h
  have hlength : before.length ≤ (data ++ f).length := by
    rw [hdata]
    simp only [List.length_append]
    omega
  have hwhole : data ++ f = before ++ (m ++ (after ++ f)) := by
    rw [hdata]
    simp
  have hnext := ho.pick_append hmatch hf
  rw [List.append_assoc] at hnext
  rw [items_skip (fun j hj => search_before h hf hj) hlength, hwhole, List.take_left,
    List.drop_left, ho.items_match hnext, List.drop_left]

end

/-- Some element of the stretch was replaced. -/
def Covered (bs : List Bool) (i n : Nat) : Prop := ∃ j, i ≤ j ∧ j < i + n ∧ bs[j]? = some true

theorem Covered.append {bs more : List Bool} {i n : Nat} (h : Covered bs i n) :
    Covered (bs ++ more) i n := by
  obtain ⟨j, hle, hlt, hj⟩ := h
  have hlength : j < bs.length := (List.getElem?_eq_some_iff.mp hj).choose
  exact ⟨j, hle, hlt, by rw [List.getElem?_append_left hlength]; exact hj⟩

theorem Covered.shift {bs more : List Bool} {i n : Nat} (h : Covered more i n) :
    Covered (bs ++ more) (bs.length + i) n := by
  obtain ⟨j, hle, hlt, hj⟩ := h
  refine ⟨bs.length + j, by omega, by omega, ?_⟩
  rw [List.getElem?_append_right (by omega), Nat.add_sub_cancel_left]
  exact hj

theorem Covered.of_lt {bs more : List Bool} {i n : Nat} (h : Covered more (i - bs.length) n)
    (hi : bs.length ≤ i) : Covered (bs ++ more) i n := by
  have hshift : Covered (bs ++ more) (bs.length + (i - bs.length)) n := h.shift
  rw [Nat.add_sub_cancel' hi] at hshift
  exact hshift

section

variable {ps : List (List α)} {data tail f p : List α} {segs : List (Segment α)} {fuel : Nat}

theorem segments_sources (h : segments ps fuel data = (segs, tail)) :
    sources segs ++ tail = data := by
  induction fuel generalizing data segs tail with
  | zero =>
    cases h
    rfl
  | succ fuel ih =>
    unfold segments at h
    split at h
    · cases h
      rfl
    rename_i before m after hsearch
    cases h
    have hafter : segments ps fuel after = (_, _) := rfl
    have hrest := ih hafter
    show before ++ (m ++ sources _) ++ _ = data
    rw [(search_some hsearch).1, List.append_assoc, List.append_assoc, hrest]

theorem Ordered.after_shorter (ho : Ordered ps) {before m after : List α}
    (h : search ps data = some (before, m, after)) : after.length < data.length := by
  obtain ⟨hdata, hmatch, _⟩ := search_some h
  have hpos := List.length_pos_iff.mpr (ho.nonempty m (pick_mem hmatch).1)
  rw [hdata]
  simp only [List.length_append]
  omega

section

variable (ho : Ordered ps) (h : segments ps fuel data = (segs, tail))

include ho h

theorem Ordered.segments_tail (hfuel : data.length ≤ fuel) {j : Nat} (hj : j < tail.length) :
    pick ps (tail.drop j) = none := by
  induction fuel generalizing data segs tail with
  | zero =>
    cases h
    omega
  | succ fuel ih =>
    unfold segments at h
    split at h
    · rename_i hsearch
      cases h
      exact search_none hsearch hj
    rename_i before m after hsearch
    cases h
    have hshorter := ho.after_shorter hsearch
    have hafter : segments ps fuel after = (_, _) := rfl
    exact ih hafter (by omega) hj

theorem Ordered.segments_items (hf : f = [] ∨ ¬ EndsInside ps) :
    items ps (data ++ f) = itemsOf segs ++ items ps (tail ++ f) := by
  induction fuel generalizing data segs tail with
  | zero =>
    cases h
    rfl
  | succ fuel ih =>
    unfold segments at h
    split at h
    · cases h
      rfl
    rename_i before m after hsearch
    cases h
    have hafter : segments ps fuel after = (_, _) := rfl
    rw [ho.items_search hsearch hf, ih hafter]
    simp [itemsOf]

/-- A pattern that starts in what was passed on shares an element with a match. -/
theorem Ordered.segments_covered (hp : p ∈ ps) {i : Nat} (hi : i < (sources segs).length)
    (hpre : p <+: (data ++ f).drop i) : Covered (marks segs) i p.length := by
  induction fuel generalizing data segs tail i with
  | zero =>
    cases h
    exact absurd hi (Nat.not_lt_zero i)
  | succ fuel ih =>
    unfold segments at h
    split at h
    · cases h
      exact absurd hi (Nat.not_lt_zero i)
    rename_i before m after hsearch
    cases h
    obtain ⟨hdata, hmatch, hnone⟩ := search_some hsearch
    have hm := List.length_pos_iff.mpr (ho.nonempty m (pick_mem hmatch).1)
    have hpos := List.length_pos_iff.mpr (ho.nonempty p hp)
    have hlength : data.length = before.length + (m.length + after.length) := by
      rw [hdata, List.length_append, List.length_append]
    show Covered (List.replicate before.length false ++ (List.replicate m.length true ++
      marks (segments ps fuel after).1)) i p.length
    by_cases hbefore : i < before.length
    · -- no pattern starts here within the data, so this one runs over the match
      rw [List.drop_append_of_le_length (by omega)] at hpre
      rcases prefix_append_cases hpre with hinside | ⟨y, _, hy⟩
      · exact absurd hinside (pick_none (hnone i hbefore) hp)
      have hover : data.length ≤ i + p.length := by
        rw [hy, List.length_append, List.length_drop]
        omega
      refine ⟨before.length, by omega, by omega, ?_⟩
      rw [List.getElem?_append_right (by simp), List.length_replicate, Nat.sub_self,
        List.getElem?_append_left (by simp; omega), List.getElem?_replicate, if_pos hm]
    · by_cases hmatched : i < before.length + m.length
      · refine ⟨i, Nat.le_refl i, by omega, ?_⟩
        rw [List.getElem?_append_right (by simp; omega), List.length_replicate,
          List.getElem?_append_left (by simp; omega), List.getElem?_replicate,
          if_pos (by omega)]
      have hrest : (data ++ f).drop i = (after ++ f).drop (i - before.length - m.length) := by
        have hwhole : data ++ f = (before ++ m) ++ (after ++ f) := by
          rw [hdata]
          simp
        rw [hwhole, List.drop_append, List.drop_eq_nil_of_le (by simp; omega),
          List.nil_append, List.length_append, Nat.sub_sub]
      rw [hrest] at hpre
      have hsources : (sources (.copied before :: .redacted m ::
          (segments ps fuel after).1)).length =
            before.length + (m.length + (sources (segments ps fuel after).1).length) := by
        show (before ++ (m ++ sources (segments ps fuel after).1)).length = _
        rw [List.length_append, List.length_append]
      rw [hsources] at hi
      have hafter : segments ps fuel after = (_, _) := rfl
      have hcovered := ih hafter (i := i - before.length - m.length) (by omega) hpre
      apply Covered.of_lt _ (by simp; omega)
      rw [List.length_replicate]
      apply Covered.of_lt _ (by simp; omega)
      rw [List.length_replicate]
      exact hcovered

end

end

section

variable {ps : List (List α)} {tail f p : List α}

theorem le_suffixLength (pattern tail : List α) (keep n : Nat) :
    keep ≤ suffixLength pattern tail keep n := by
  induction n with
  | zero => exact Nat.le_refl keep
  | succ n ih =>
    unfold suffixLength
    split
    · exact Nat.le_refl keep
    split
    · omega
    · exact ih

/-- No suffix in range that begins the pattern is longer than what is kept. -/
theorem suffixLength_max {pattern : List α} {keep n k : Nat} (hk : k ≤ n)
    (hpre : lastOf k tail <+: pattern) : k ≤ suffixLength pattern tail keep n := by
  induction n with
  | zero => omega
  | succ n ih =>
    unfold suffixLength
    split
    · omega
    split
    · omega
    rename_i hno
    by_cases hsame : k = n + 1
    · rw [hsame] at hpre
      exact absurd (List.isPrefixOf_iff_prefix.mpr hpre) hno
    · exact ih (by omega)

theorem le_keepFrom (tail : List α) (keep : Nat) (ps : List (List α)) :
    keep ≤ keepFrom tail keep ps := by
  induction ps generalizing keep with
  | nil => exact Nat.le_refl keep
  | cons q ps ih =>
    exact Nat.le_trans (le_suffixLength q tail keep _) (ih _)

theorem keepFrom_max (keep : Nat) (hp : p ∈ ps) {k : Nat} (htail : k ≤ tail.length)
    (hshort : k < p.length) (hpre : lastOf k tail <+: p) : k ≤ keepFrom tail keep ps := by
  induction ps generalizing keep with
  | nil => cases hp
  | cons q ps ih =>
    rcases List.mem_cons.mp hp with rfl | hp
    · have hk : k ≤ min tail.length (p.length - 1) := by omega
      exact Nat.le_trans (suffixLength_max hk hpre) (le_keepFrom tail _ ps)
    · exact ih _ hp

/-- No pattern starts before the part that is held back, whatever follows. -/
theorem pick_kept (hnone : ∀ j < tail.length, pick ps (tail.drop j) = none) {j : Nat}
    (hj : j < tail.length - keepLength ps tail) : pick ps ((tail ++ f).drop j) = none := by
  cases hpick : pick ps ((tail ++ f).drop j) with
  | none => rfl
  | some q =>
    obtain ⟨hq, hpre⟩ := pick_mem hpick
    rw [List.drop_append_of_le_length (by omega)] at hpre
    rcases prefix_append_cases hpre with hinside | ⟨y, hy, hqy⟩
    · exact absurd hinside (pick_none (hnone j (by omega)) hq)
    have hlast : lastOf (tail.length - j) tail = tail.drop j := by
      unfold lastOf
      rw [Nat.sub_sub_self (by omega)]
    have hlong : tail.length - j < q.length := by
      have hpos := List.length_pos_iff.mpr hy
      rw [hqy, List.length_append, List.length_drop]
      omega
    have hkeep : tail.length - j ≤ keepFrom tail 0 ps := by
      apply keepFrom_max 0 hq (by omega) hlong
      rw [hlast, hqy]
      exact List.prefix_append _ _
    have hsame : keepFrom tail 0 ps = keepLength ps tail := rfl
    omega

end

section

variable {ps : List (List α)} {pending chunk f p : List α}

/-- What is passed on and what is held back make up the data. -/
theorem feed_sources (ps : List (List α)) (pending chunk : List α) (final : Bool) :
    sources (feed ps pending chunk final).1 ++ (feed ps pending chunk final).2 =
      pending ++ chunk := by
  have hdata : segments ps (pending ++ chunk).length (pending ++ chunk) = (_, _) := rfl
  have hsegments := segments_sources hdata
  unfold feed lastOf
  dsimp only
  rw [sources_append]
  show (sources _ ++ (List.take _ _ ++ [])) ++ _ = _
  rw [List.append_nil, List.append_assoc, List.take_append_drop]
  exact hsegments

theorem feed_final (ps : List (List α)) (pending chunk : List α) :
    (feed ps pending chunk true).2 = [] := by
  unfold feed lastOf
  simp

section

variable (ho : Ordered ps)

include ho

/-- A chunk is searched, and of the tail that is left a part is passed on in which no pattern
starts, whatever follows. -/
theorem Ordered.feed_cases (pending chunk : List α) :
    ∃ segs tail n, segments ps (pending ++ chunk).length (pending ++ chunk) = (segs, tail) ∧
      n ≤ tail.length ∧ (∀ (f : List α) (j : Nat), j < n → pick ps ((tail ++ f).drop j) = none) ∧
      feed ps pending chunk false = (segs ++ [.copied (tail.take n)], tail.drop n) := by
  cases hdata : segments ps (pending ++ chunk).length (pending ++ chunk) with
  | mk segs tail =>
    refine ⟨segs, tail, tail.length - keepLength ps tail, rfl, Nat.sub_le _ _, ?_, ?_⟩
    · intro f j hj
      exact pick_kept (fun j hj => ho.segments_tail hdata (Nat.le_refl _) hj) hj
    · unfold feed lastOf
      dsimp only
      rw [hdata]
      rfl

/-- What one chunk adds to the output, whatever follows. -/
theorem Ordered.feed_items (hends : ¬ EndsInside ps) (pending chunk f : List α) :
    items ps (pending ++ chunk ++ f) = itemsOf (feed ps pending chunk false).1 ++
      items ps ((feed ps pending chunk false).2 ++ f) := by
  obtain ⟨segs, tail, n, hdata, hn, hnone, hfed⟩ := ho.feed_cases pending chunk
  have hskip : items ps (tail ++ f) = (tail.take n).map some ++ items ps (tail.drop n ++ f) := by
    have hlength : n ≤ (tail ++ f).length := by
      rw [List.length_append]
      omega
    rw [items_skip (hnone f) hlength, List.take_append_of_le_length hn,
      List.drop_append_of_le_length hn]
  rw [ho.segments_items hdata (.inr hends), hskip, hfed]
  simp [itemsOf]

theorem Ordered.feed_items_final (pending chunk : List α) :
    itemsOf (feed ps pending chunk true).1 = items ps (pending ++ chunk) := by
  cases hdata : segments ps (pending ++ chunk).length (pending ++ chunk) with
  | mk segs tail =>
    have hitems := ho.segments_items (f := []) hdata (.inl rfl)
    have hnone : ∀ j < tail.length, pick ps (tail.drop j) = none :=
      fun j hj => ho.segments_tail hdata (Nat.le_refl _) hj
    have hskip := items_skip hnone (Nat.le_refl _)
    rw [List.append_nil, List.append_nil, hskip] at hitems
    unfold feed
    dsimp only
    rw [hdata, hitems]
    simp [itemsOf]

/-- A pattern that starts in what one chunk passed on shares an element with a match. -/
theorem Ordered.feed_covered (hp : p ∈ ps) {i : Nat}
    (hi : i < (sources (feed ps pending chunk false).1).length)
    (hpre : p <+: (pending ++ chunk ++ f).drop i) :
    Covered (marks (feed ps pending chunk false).1) i p.length := by
  obtain ⟨segs, tail, n, hdata, hn, hnone, hfed⟩ := ho.feed_cases pending chunk
  rw [hfed] at hi ⊢
  rw [marks_append]
  by_cases hsegs : i < (sources segs).length
  · exact (ho.segments_covered hdata hp hsegs hpre).append
  have hwhole := segments_sources hdata
  have hdrop : (pending ++ chunk ++ f).drop i = (tail ++ f).drop (i - (sources segs).length) := by
    rw [← hwhole, List.append_assoc, List.drop_append, List.drop_eq_nil_of_le (by omega),
      List.nil_append]
  have hlength : (sources (segs ++ [.copied (tail.take n)])).length =
      (sources segs).length + n := by
    simp only [sources_append, sources, List.append_nil, List.length_append, List.length_take]
    omega
  rw [hlength] at hi
  rw [hdrop] at hpre
  exact absurd hpre (pick_none (hnone f _ (by omega)) hp)

theorem Ordered.feed_covered_final (hp : p ∈ ps) {i : Nat}
    (hpre : p <+: (pending ++ chunk).drop i) :
    Covered (marks (feed ps pending chunk true).1) i p.length := by
  cases hdata : segments ps (pending ++ chunk).length (pending ++ chunk) with
  | mk segs tail =>
    have hmarks : marks (feed ps pending chunk true).1 =
        marks segs ++ marks [.copied (tail.take (tail.length - 0))] := by
      unfold feed
      dsimp only
      rw [hdata, marks_append]
      rfl
    rw [hmarks]
    have hwhole := segments_sources hdata
    by_cases hsegs : i < (sources segs).length
    · rw [← List.append_nil (pending ++ chunk)] at hpre
      exact (ho.segments_covered hdata hp hsegs hpre).append
    have hdrop : (pending ++ chunk).drop i = tail.drop (i - (sources segs).length) := by
      rw [← hwhole, List.drop_append, List.drop_eq_nil_of_le (by omega), List.nil_append]
    rw [hdrop] at hpre
    by_cases htail : i - (sources segs).length < tail.length
    · have hnone := ho.segments_tail hdata (Nat.le_refl _) htail
      exact absurd hpre (pick_none hnone hp)
    · rw [List.drop_eq_nil_of_le (by omega)] at hpre
      exact absurd (List.prefix_nil.mp hpre) (ho.nonempty p hp)

end

end

section

variable {ps : List (List α)} {p : List α}

/-- Unless a pattern lies in another one that ends later, the chunks make no difference. -/
theorem Ordered.feedAll_items (ho : Ordered ps) (hends : ¬ EndsInside ps) (pending : List α)
    (chunks : List (List α)) :
    itemsOf (feedAll ps pending chunks) = items ps (pending ++ chunks.flatten) := by
  induction chunks generalizing pending with
  | nil => exact ho.feed_items_final pending []
  | cons chunk rest ih =>
    show itemsOf ((feed ps pending chunk false).1 ++ _) = _
    rw [itemsOf_append, ih, ← ho.feed_items hends, List.flatten_cons, List.append_assoc]

theorem feedAll_sources (ps : List (List α)) (pending : List α) (chunks : List (List α)) :
    sources (feedAll ps pending chunks) = pending ++ chunks.flatten := by
  induction chunks generalizing pending with
  | nil =>
    have hfed := feed_sources ps pending [] true
    rw [feed_final, List.append_nil] at hfed
    exact hfed
  | cons chunk rest ih =>
    show sources ((feed ps pending chunk false).1 ++ _) = _
    rw [sources_append, ih, ← List.append_assoc, feed_sources, List.flatten_cons,
      List.append_assoc]

/-- Wherever a pattern occurs in the stream, a part of it is replaced. -/
theorem Ordered.feedAll_covered (ho : Ordered ps) (hp : p ∈ ps) (pending : List α)
    (chunks : List (List α)) {i : Nat} (hpre : p <+: (pending ++ chunks.flatten).drop i) :
    Covered (marks (feedAll ps pending chunks)) i p.length := by
  induction chunks generalizing pending i with
  | nil => exact ho.feed_covered_final hp hpre
  | cons chunk rest ih =>
    show Covered (marks ((feed ps pending chunk false).1 ++ _)) i p.length
    rw [marks_append]
    rw [List.flatten_cons, ← List.append_assoc] at hpre
    by_cases hi : i < (sources (feed ps pending chunk false).1).length
    · exact (ho.feed_covered hp hi hpre).append
    apply Covered.of_lt _ (by rw [marks_length]; omega)
    rw [marks_length]
    apply ih
    rw [← feed_sources ps pending chunk false, List.append_assoc, List.drop_append,
      List.drop_eq_nil_of_le (by omega), List.nil_append] at hpre
    exact hpre

/-- A pattern that lies in a chunk is replaced in what the chunk passes on. -/
theorem Ordered.feed_renders (ho : Ordered ps) (hp : p ∈ ps) {chunk : List α} {i : Nat}
    (hpre : p <+: chunk.drop i) (marker : List α) :
    marker.length ≤ (render marker (feed ps [] chunk false).1).length := by
  obtain ⟨segs, tail, n, hdata, _, _, hfed⟩ := ho.feed_cases [] chunk
  rw [List.nil_append] at hdata
  have hpos := List.length_pos_iff.mpr (ho.nonempty p hp)
  have hi : i < chunk.length := by
    have hle := hpre.length_le
    rw [List.length_drop] at hle
    omega
  obtain ⟨fuel, hfuel⟩ : ∃ fuel, chunk.length = fuel + 1 := ⟨chunk.length - 1, by omega⟩
  rw [hfuel] at hdata
  unfold segments at hdata
  cases hsearch : search ps chunk with
  | none => exact absurd hpre (pick_none (search_none hsearch hi) hp)
  | some found =>
    obtain ⟨before, m, after⟩ := found
    rw [hsearch] at hdata
    cases hdata
    rw [hfed, render_append]
    show marker.length ≤ (before ++ (marker ++ _) ++ _).length
    simp only [List.length_append]
    omega

/-- If a pattern lies in another one that ends later, some split shows more than the marker. -/
theorem Ordered.exists_split (ho : Ordered ps) (hends : EndsInside ps) {marker : List α}
    (hmarker : marker ≠ []) : ∃ chunks : List (List α),
      render marker (feedAll ps [] chunks) ≠ render marker (feed ps [] chunks.flatten true).1 := by
  obtain ⟨a, ha, b, hb, x, y, rfl, hy⟩ := hends
  refine ⟨[x ++ b, y], fun hsame => ?_⟩
  have hwhole : [x ++ b, y].flatten = x ++ b ++ y := by simp
  rw [hwhole] at hsame
  -- as a whole the stream is one match
  have hone : render marker (feed ps [] (x ++ b ++ y) true).1 = marker := by
    obtain ⟨m, hm⟩ := pick_isSome ha (List.prefix_refl _)
    have hlong := ho.pick_longest hm ha (List.prefix_refl _)
    rw [render_eq_flatMap, ho.feed_items_final, List.nil_append, ho.items_match hm,
      List.drop_eq_nil_of_le hlong]
    simp
  have hfirst : marker.length ≤ (render marker (feed ps [] (x ++ b) false).1).length := by
    have hpre : b <+: (x ++ b).drop x.length := by
      rw [List.drop_left]
    exact ho.feed_renders hb hpre marker
  have hrest : render marker (feedAll ps (feed ps [] (x ++ b) false).2 [y]) ≠ [] := by
    apply render_ne_nil hmarker
    rw [feedAll_sources]
    intro hnil
    have hflat := (List.append_eq_nil_iff.mp hnil).2
    rw [List.flatten_cons, List.flatten_nil, List.append_nil] at hflat
    exact hy hflat
  have hpos := List.length_pos_iff.mpr hrest
  have hlength := congrArg List.length hsame
  rw [hone] at hlength
  have hparts : (render marker (feedAll ps [] [x ++ b, y])).length =
      (render marker (feed ps [] (x ++ b) false).1).length +
        (render marker (feedAll ps (feed ps [] (x ++ b) false).2 [y])).length := by
    show (render marker ((feed ps [] (x ++ b) false).1 ++ _)).length = _
    rw [render_append, List.length_append]
  omega

/-- The chunks never make a difference exactly if no pattern lies in another one that ends
later. -/
theorem Ordered.chunks_iff (ho : Ordered ps) {marker : List α} (hmarker : marker ≠ []) :
    (∀ chunks : List (List α), render marker (feedAll ps [] chunks) =
      render marker (feed ps [] chunks.flatten true).1) ↔ ¬ EndsInside ps := by
  constructor
  · intro hall hends
    obtain ⟨chunks, hne⟩ := ho.exists_split hends hmarker
    exact hne (hall chunks)
  · intro hends chunks
    rw [render_eq_flatMap, render_eq_flatMap, ho.feedAll_items hends, ho.feed_items_final]

end

end Redact
