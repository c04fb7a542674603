import CodexBridge.Review.LineCounts

/-! # What the counts leave out

Both counts take a changed line whose text starts with its sign twice for a file name. The route
also takes what follows a form feed or another line end inside a text for a line of its own.
-/

namespace CodexBridge.Review

/-! ## Lines of the route -/

/-- The pieces `splitlines` makes of a line; a carriage return at its end goes with the newline. -/
def pieces : Text → List Text
  | [] => [[]]
  | ['\r'] => [[]]
  | c :: rest => if isBoundary c then [] :: pieces rest else consFirst c (pieces rest)

theorem consFirst_ne_nil (c : Char) (lines : List Text) : consFirst c lines ≠ [] := by
  cases lines <;> simp [consFirst]

variable (line : Text)

theorem pieces_ne_nil : pieces line ≠ [] := by
  fun_cases pieces line with
  | case1 => exact List.cons_ne_nil _ _
  | case2 => exact List.cons_ne_nil _ _
  | case3 c rest hend hboundary => exact List.cons_ne_nil _ _
  | case4 c rest hend hboundary => exact consFirst_ne_nil _ _

theorem consFirst_append {c : Char} {lines : List Text} (h : lines ≠ []) (more : List Text) :
    consFirst c (lines ++ more) = consFirst c lines ++ more := by
  cases lines with
  | nil => exact absurd rfl h
  | cons line lines => rfl

theorem splitlines_cons {c : Char} {rest : Text} (h : c = '\r' → rest.head? ≠ some '\n') :
    splitlines (c :: rest) =
      if isBoundary c then [] :: splitlines rest else consFirst c (splitlines rest) := by
  rw [splitlines]
  intro after hc hrest
  rw [hrest] at h
  exact h hc rfl

theorem splitlines_line (hline : '\n' ∉ line) (rest : Text) :
    splitlines (line ++ '\n' :: rest) = pieces line ++ splitlines rest := by
  have hfirst {c : Char} {more : Text} (hmore : '\n' ∉ c :: more)
      (hend : c = '\r' → more = [] → False) :
      c = '\r' → (more ++ '\n' :: rest).head? ≠ some '\n' := by
    intro hc hhead
    cases more with
    | nil => exact hend hc rfl
    | cons d more =>
      have hd : d = '\n' := Option.some.inj hhead
      exact hmore (by simp [hd])
  fun_induction pieces line with
  | case1 =>
    rw [List.nil_append, splitlines_cons fun h => absurd h (by decide)]
    rfl
  | case2 => rfl
  | case3 c more hend hboundary ih =>
    have hmore : '\n' ∉ more := fun h => hline (List.mem_cons_of_mem c h)
    rw [List.cons_append, splitlines_cons (hfirst hline hend), if_pos hboundary, ih hmore]
    rfl
  | case4 c more hend hboundary ih =>
    have hmore : '\n' ∉ more := fun h => hline (List.mem_cons_of_mem c h)
    rw [List.cons_append, splitlines_cons (hfirst hline hend), if_neg hboundary, ih hmore,
      consFirst_append (pieces_ne_nil more)]

theorem pieces_boundary {c : Char} (h : isBoundary c = true) (line : Text) :
    ∃ rest, pieces (c :: line) = [] :: rest := by
  unfold pieces
  split
  · exact ⟨[], rfl⟩
  · exact ⟨[], rfl⟩
  · rename_i heq
    rw [← (List.cons.inj heq).1, if_pos h]
    exact ⟨_, rfl⟩

theorem pieces_plain {c : Char} (h : isBoundary c = false) (line : Text) :
    pieces (c :: line) = consFirst c (pieces line) := by
  rw [pieces]
  · simp [h]
  intro hc
  rw [hc] at h
  exact absurd h (by decide)

/-- The first piece starts as the line does, as far as no line end stands there. -/
theorem startsWith_pieces (start line : Text) (hstart : ∀ c ∈ start, isBoundary c = false) :
    ∃ piece rest, pieces line = piece :: rest ∧ startsWith start piece = startsWith start line := by
  induction line generalizing start with
  | nil => exact ⟨[], [], rfl, rfl⟩
  | cons c line ih =>
    by_cases hboundary : isBoundary c = true
    · obtain ⟨rest, hrest⟩ := pieces_boundary hboundary line
      refine ⟨[], rest, hrest, ?_⟩
      cases start with
      | nil => rfl
      | cons d start =>
        have hd := hstart d List.mem_cons_self
        have hne : d ≠ c := by
          intro h
          rw [h, hboundary] at hd
          cases hd
        simp [startsWith, List.isPrefixOf, hne]
    · have hpieces := pieces_plain (Bool.eq_false_iff.mpr hboundary) line
      cases start with
      | nil =>
        obtain ⟨piece, rest, hrest, -⟩ := ih [] (by simp)
        exact ⟨c :: piece, rest, by rw [hpieces, hrest]; rfl, rfl⟩
      | cons d start =>
        obtain ⟨piece, rest, hrest, hsame⟩ := ih start
          fun e he => hstart e (List.mem_cons_of_mem d he)
        refine ⟨c :: piece, rest, by rw [hpieces, hrest]; rfl, ?_⟩
        simp only [startsWith, List.isPrefixOf] at hsame ⊢
        rw [hsame]

def strays (sign : Sign) (line : Text) : Nat := (pieces line).tail.countP (isChanged sign)

variable (sign : Sign)

theorem countP_pieces (line : Text) :
    (pieces line).countP (isChanged sign) =
      (if isChanged sign line then 1 else 0) + strays sign line := by
  have hplain (n : Nat) : ∀ c ∈ List.replicate n sign.char, isBoundary c = false := by
    intro c hc
    rw [List.eq_of_mem_replicate hc]
    cases sign <;> decide
  obtain ⟨piece, rest, hpieces, hone⟩ := startsWith_pieces [sign.char] line (hplain 1)
  obtain ⟨piece', rest', hpieces', hthree⟩ := startsWith_pieces
    [sign.char, sign.char, sign.char] line (hplain 3)
  have hsame : piece' = piece := by
    rw [hpieces] at hpieces'
    exact (List.cons.inj hpieces').1.symm
  rw [hsame] at hthree
  have hfirst : isChanged sign piece = isChanged sign line := by
    rw [isChanged, isChanged, hone, hthree]
  rw [strays, hpieces, List.tail_cons, List.countP_cons, hfirst, Nat.add_comm]

namespace DiffLine

def doubled (sign : Sign) : DiffLine → Bool
  | added text | removed text => startsWith [sign.char, sign.char] text
  | _ => false

theorem isWell_single {line : DiffLine} (h : line.isWell = true) : '\n' ∉ line.chars := by
  have hboundary {text : Text} (htext : text.all (fun c => !isBoundary c) = true) :
      '\n' ∉ text := by
    intro hmem
    have hplain := List.all_eq_true.mp htext _ hmem
    exact absurd hplain (by decide)
  have hnewline {text : Text} (htext : text.all (fun c => c ≠ '\n') = true) : '\n' ∉ text := by
    intro hmem
    exact absurd (List.all_eq_true.mp htext _ hmem) (by decide)
  cases line with
  | header text =>
    simp only [isWell, Bool.and_eq_true] at h
    exact hboundary h.1.1
  | oldName name => simpa [chars] using hboundary h
  | newName name => simpa [chars] using hboundary h
  | heading text => simpa [chars] using hnewline h
  | added text => simpa [chars] using hnewline h
  | removed text => simpa [chars] using hnewline h
  | context text => simpa [chars] using hnewline h
  | note text => simpa [chars] using hnewline h

theorem isChanged_chars {line : DiffLine} (h : line.isWell = true) (sign : Sign) :
    isChanged sign line.chars = (line.changes sign && !line.doubled sign) := by
  cases line with
  | header text =>
    cases text with
    | nil => cases sign <;> rfl
    | cons c text =>
      simp only [isWell, Bool.and_eq_true, List.head?_cons, ne_eq, Option.some.injEq,
        decide_not, Bool.not_eq_eq_eq_not, Bool.not_true, decide_eq_false_iff_not] at h
      have hplus : ('+' == c) = false := beq_eq_false_iff_ne.mpr fun he => h.1.2 he.symm
      have hminus : ('-' == c) = false := beq_eq_false_iff_ne.mpr fun he => h.2 he.symm
      cases sign <;> simp [isChanged, startsWith, chars, changes, List.isPrefixOf, Sign.char,
        hplus, hminus]
  | oldName name => cases sign <;> simp [isChanged, startsWith, chars, changes, Sign.char]
  | newName name => cases sign <;> simp [isChanged, startsWith, chars, changes, Sign.char]
  | heading text => cases sign <;> simp [isChanged, startsWith, chars, changes, Sign.char]
  | added text =>
    cases sign <;> simp [isChanged, startsWith, chars, changes, doubled, Sign.char]
  | removed text =>
    cases sign <;> simp [isChanged, startsWith, chars, changes, doubled, Sign.char]
  | context text => cases sign <;> simp [isChanged, startsWith, chars, changes, Sign.char]
  | note text => cases sign <;> simp [isChanged, startsWith, chars, changes, Sign.char]

end DiffLine

def lost (sign : Sign) (lines : List DiffLine) : Nat :=
  lines.countP fun line => line.changes sign && line.doubled sign

def stray (sign : Sign) (lines : List DiffLine) : Nat :=
  (lines.map fun line => strays sign line.chars).sum

theorem joined_cons (lines : List Text) :
    joined (line :: lines) = line ++ '\n' :: joined lines := by
  simp [joined]

theorem countP_splitlines (lines : List DiffLine) (hlines : ∀ line ∈ lines, line.isWell = true) :
    (splitlines (joined (lines.map DiffLine.chars))).countP (isChanged sign) + lost sign lines =
      lines.countP (DiffLine.changes sign) + stray sign lines := by
  induction lines with
  | nil => rfl
  | cons line lines ih =>
    have hfirst := hlines line List.mem_cons_self
    have hrest := ih fun l hl => hlines l (List.mem_cons_of_mem line hl)
    have hpieces := countP_pieces sign line.chars
    rw [DiffLine.isChanged_chars hfirst] at hpieces
    rw [List.map_cons, joined_cons, splitlines_line _ (DiffLine.isWell_single hfirst),
      List.countP_append, hpieces]
    simp only [lost, stray, List.countP_cons, List.map_cons, List.sum_cons] at hrest ⊢
    cases hchanges : line.changes sign with
    | false =>
      simp only [Bool.false_and, Bool.false_eq_true, if_false]
      omega
    | true =>
      cases hdoubled : line.doubled sign with
      | false =>
        simp only [Bool.not_false, Bool.and_false, Bool.and_true, Bool.false_eq_true,
          if_false, if_true]
        omega
      | true =>
        simp only [Bool.not_true, Bool.and_false, Bool.and_true, Bool.false_eq_true,
          if_false, if_true]
        omega

theorem splitNewline_line (hline : '\n' ∉ line) (rest : Text) :
    splitNewline (line ++ '\n' :: rest) = line :: splitNewline rest := by
  induction line with
  | nil => rfl
  | cons c line ih =>
    have hc : c ≠ '\n' := fun h => hline (by simp [h])
    have hrest : '\n' ∉ line := fun h => hline (List.mem_cons_of_mem c h)
    rw [List.cons_append, splitNewline, if_neg hc, ih hrest]
    rfl

theorem splitNewline_last (hline : '\n' ∉ line) : splitNewline line = [line] := by
  induction line with
  | nil => rfl
  | cons c line ih =>
    have hc : c ≠ '\n' := fun h => hline (by simp [h])
    have hrest : '\n' ∉ line := fun h => hline (List.mem_cons_of_mem c h)
    rw [splitNewline, if_neg hc, ih hrest]
    rfl

theorem mem_sliceUnits {c : Char} {n : Nat} {text : Text} (h : c ∈ Panel.sliceUnits n text) :
    c ∈ text := by
  induction text generalizing n with
  | nil => simp [Panel.sliceUnits] at h
  | cons d text ih =>
    simp only [Panel.sliceUnits] at h
    by_cases hfits : (if d.toNat < 0x10000 then 1 else 2) ≤ n
    · rw [if_pos hfits] at h
      cases List.mem_cons.mp h with
      | inl hthis => exact hthis ▸ List.mem_cons_self
      | inr hlater => exact List.mem_cons_of_mem d (ih hlater)
    · rw [if_neg hfits] at h
      cases h

/-- A line is within the first `n` units with its newline, or it is the last one and cut. -/
theorem sliceUnits_line (n : Nat) (line rest : Text) :
    Panel.sliceUnits n (line ++ '\n' :: rest) =
      if lineUnits line ≤ n then line ++ '\n' :: Panel.sliceUnits (n - lineUnits line) rest
      else Panel.sliceUnits n line := by
  induction line generalizing n with
  | nil =>
    have hwidth : ('\n' : Char).toNat < 0x10000 := by decide
    simp only [List.nil_append, Panel.sliceUnits, hwidth, if_true, lineUnits, List.map_nil,
      List.sum_nil, Nat.zero_add]
  | cons c line ih =>
    have hunits : lineUnits (c :: line) =
        (if c.toNat < 0x10000 then 1 else 2) + lineUnits line := by
      simp only [lineUnits, List.map_cons, List.sum_cons]
      omega
    rw [List.cons_append]
    simp only [Panel.sliceUnits, ih, hunits]
    generalize (if c.toNat < 0x10000 then 1 else 2) = width
    by_cases hfirst : width ≤ n
    · by_cases hall : lineUnits line ≤ n - width
      · have htotal : width + lineUnits line ≤ n := by omega
        rw [if_pos hfirst, if_pos hall, if_pos htotal, Nat.sub_sub, List.cons_append]
      · have htotal : ¬ width + lineUnits line ≤ n := by omega
        rw [if_pos hfirst, if_neg hall, if_neg htotal, if_pos hfirst]
    · have htotal : ¬ width + lineUnits line ≤ n := by omega
      rw [if_neg hfirst, if_neg htotal, if_neg hfirst]

/-- The lines of the first `n` units. -/
def visible : Nat → List Text → List Text
  | _, [] => [[]]
  | n, line :: rest =>
    if lineUnits line ≤ n then line :: visible (n - lineUnits line) rest
    else [Panel.sliceUnits n line]

theorem splitNewline_sliceUnits (n : Nat) (lines : List Text)
    (hlines : ∀ line ∈ lines, '\n' ∉ line) :
    splitNewline (Panel.sliceUnits n (joined lines)) = visible n lines := by
  induction lines generalizing n with
  | nil => rfl
  | cons line lines ih =>
    have hfirst := hlines line List.mem_cons_self
    have hrest : ∀ l ∈ lines, '\n' ∉ l := fun l hl => hlines l (List.mem_cons_of_mem line hl)
    rw [joined_cons, sliceUnits_line, visible]
    by_cases hfits : lineUnits line ≤ n
    · rw [if_pos hfits, if_pos hfits, splitNewline_line line hfirst, ih _ hrest]
    · rw [if_neg hfits, if_neg hfits]
      exact splitNewline_last _ fun h => hfirst (mem_sliceUnits h)

theorem isCounted_eq (line : Text) : isCounted sign line = isChanged sign line := by
  cases line with
  | nil => cases sign <;> rfl
  | cons c line =>
    by_cases hplus : c = '+'
    · subst hplus
      cases sign <;>
        simp [isCounted, isChanged, startsWith, Sign.char, List.isPrefixOf, Bool.and_comm]
    by_cases hminus : c = '-'
    · subst hminus
      cases sign <;>
        simp [isCounted, isChanged, startsWith, Sign.char, List.isPrefixOf, Bool.and_comm]
    have hne : ('+' == c) = false := beq_eq_false_iff_ne.mpr fun h => hplus h.symm
    have hne' : ('-' == c) = false := beq_eq_false_iff_ne.mpr fun h => hminus h.symm
    cases sign <;> simp [isCounted, isChanged, startsWith, Sign.char, List.isPrefixOf, hne,
      hne']

/-! ## The panel's counts -/

theorem startsWith_sliceUnits (start : Text) (hstart : ∀ c ∈ start, c.toNat < 0x10000) (n : Nat)
    (line : Text) : startsWith start (Panel.sliceUnits n line) =
      (startsWith start line && decide (start.length ≤ n)) := by
  induction start generalizing n line with
  | nil => simp [startsWith]
  | cons d start ih =>
    cases line with
    | nil => simp [startsWith, Panel.sliceUnits]
    | cons c line =>
      have hrest := fun m => ih (fun e he => hstart e (List.mem_cons_of_mem d he)) m line
      by_cases hsame : d = c
      · subst hsame
        have hwidth := hstart d List.mem_cons_self
        simp only [Panel.sliceUnits, hwidth, if_true]
        by_cases hn : 1 ≤ n
        · have hcount : (start.length ≤ n - 1) = ((d :: start).length ≤ n) := by
            simp only [List.length_cons, eq_iff_iff]
            omega
          rw [if_pos hn]
          simp only [startsWith, List.isPrefixOf, BEq.rfl, Bool.true_and] at hrest ⊢
          rw [hrest]
          simp only [hcount]
        · have hcount : ¬ (d :: start).length ≤ n := by
            simp only [List.length_cons]
            omega
          rw [if_neg hn, decide_eq_false hcount, Bool.and_false]
          rfl
      · have hne : (d == c) = false := beq_eq_false_iff_ne.mpr hsame
        simp only [Panel.sliceUnits]
        by_cases hfits : (if c.toNat < 0x10000 then 1 else 2) ≤ n
        · rw [if_pos hfits]
          simp [startsWith, List.isPrefixOf, hne]
        · rw [if_neg hfits]
          simp [startsWith, List.isPrefixOf, hne]

theorem startsWith_chars {line : DiffLine} (h : line.inHunk = true) (sign : Sign) :
    startsWith [sign.char] line.chars = line.changes sign ∧
      startsWith [sign.char, sign.char, sign.char] line.chars =
        (line.changes sign && line.doubled sign) := by
  cases line with
  | header text => cases h
  | oldName name => cases h
  | newName name => cases h
  | heading text =>
    cases sign <;>
      simp [startsWith, DiffLine.chars, DiffLine.changes, Sign.char, List.isPrefixOf]
  | added text =>
    cases sign <;> simp [startsWith, DiffLine.chars, DiffLine.changes, DiffLine.doubled,
      Sign.char, List.isPrefixOf]
  | removed text =>
    cases sign <;> simp [startsWith, DiffLine.chars, DiffLine.changes, DiffLine.doubled,
      Sign.char, List.isPrefixOf]
  | context text =>
    cases sign <;>
      simp [startsWith, DiffLine.chars, DiffLine.changes, Sign.char, List.isPrefixOf]
  | note text =>
    cases sign <;>
      simp [startsWith, DiffLine.chars, DiffLine.changes, Sign.char, List.isPrefixOf]

/-- A changed line of a hunk in the first `n` units is counted: it begins within them, and where it
is doubled, it is cut before that shows. -/
def Shown (sign : Sign) : Nat → List DiffLine → Prop
  | _, [] => True
  | n, line :: rest =>
    (line.changes sign = true → 0 < n ∧ (line.doubled sign = true → n < 3)) ∧
      Shown sign (n - lineUnits line.chars) rest

theorem length_of_startsWith {start line : Text} (h : startsWith start line = true) :
    start.length ≤ line.length := by
  induction start generalizing line with
  | nil => exact Nat.zero_le _
  | cons d start ih =>
    cases line with
    | nil => cases h
    | cons c line =>
      simp only [startsWith, List.isPrefixOf, Bool.and_eq_true] at h
      have hrest : start.length ≤ line.length := ih h.2
      simp only [List.length_cons]
      omega

theorem units_of_doubled {line : DiffLine} (h : line.inHunk = true) {sign : Sign}
    (hboth : (line.changes sign && line.doubled sign) = true) : 3 < lineUnits line.chars := by
  rw [← (startsWith_chars h sign).2] at hboth
  have hwidth (text : Text) :
      text.length ≤ (text.map fun c => if c.toNat < 0x10000 then 1 else 2).sum := by
    induction text with
    | nil => exact Nat.le_refl 0
    | cons c text ih =>
      simp only [List.map_cons, List.sum_cons, List.length_cons]
      split <;> omega
  have hlength := length_of_startsWith hboth
  have hunits := hwidth line.chars
  simp only [List.length_cons, List.length_nil] at hlength
  simp only [lineUnits]
  omega

theorem isChanged_sliceUnits {line : DiffLine} (h : line.inHunk = true) (sign : Sign) (n : Nat) :
    isChanged sign (Panel.sliceUnits n line.chars) =
      (line.changes sign && decide (0 < n) && !(line.doubled sign && decide (3 ≤ n))) := by
  have hone := startsWith_sliceUnits [sign.char] (by cases sign <;> simp [Sign.char]) n line.chars
  have hthree := startsWith_sliceUnits [sign.char, sign.char, sign.char]
    (by cases sign <;> simp [Sign.char]) n line.chars
  rw [isChanged, hone, hthree, (startsWith_chars h sign).1, (startsWith_chars h sign).2]
  simp only [List.length_cons, List.length_nil]
  have hpos : (0 + 1 ≤ n) = (0 < n) := by rw [eq_iff_iff]; omega
  simp only [hpos]
  cases line.changes sign <;> simp

theorem shown_zero (lines : List DiffLine) :
    Shown sign 0 lines ↔ lines.countP (DiffLine.changes sign) = 0 := by
  induction lines with
  | nil => simp [Shown]
  | cons line lines ih =>
    rw [Shown, Nat.zero_sub, ih, List.countP_cons]
    cases line.changes sign <;> simp

theorem countP_visible (lines : List DiffLine) (n : Nat)
    (hlines : ∀ line ∈ lines, line.isWell = true ∧ line.inHunk = true) :
    (visible n (lines.map DiffLine.chars)).countP (isChanged sign) ≤
        lines.countP (DiffLine.changes sign) ∧
      ((visible n (lines.map DiffLine.chars)).countP (isChanged sign) =
        lines.countP (DiffLine.changes sign) ↔ Shown sign n lines) := by
  induction lines generalizing n with
  | nil =>
    have hempty : isChanged sign [] = false := by cases sign <;> rfl
    simp [visible, Shown, hempty]
  | cons line lines ih =>
    have hfirst := hlines line List.mem_cons_self
    have hrest := ih (n - lineUnits line.chars)
      fun l hl => hlines l (List.mem_cons_of_mem line hl)
    rw [List.map_cons, visible, Shown, List.countP_cons]
    by_cases hfits : lineUnits line.chars ≤ n
    · have hpos : 0 < n := by
        simp only [lineUnits] at hfits
        omega
      have hlong : (line.changes sign && line.doubled sign) = true → 3 ≤ n := by
        intro hboth
        have hunits := units_of_doubled hfirst.2 hboth
        omega
      rw [if_pos hfits, List.countP_cons, DiffLine.isChanged_chars hfirst.1]
      cases hchanges : line.changes sign with
      | false => simpa using hrest
      | true =>
        cases hdoubled : line.doubled sign with
        | false => simpa [hpos] using hrest
        | true =>
          have hthree := hlong (by rw [hchanges, hdoubled]; rfl)
          have hle := hrest.1
          simp only [Bool.not_true, Bool.and_false, Bool.false_eq_true, if_false, if_true,
            Nat.add_zero, forall_const]
          exact ⟨by omega, fun h => by omega, fun h => by omega⟩
    · rw [if_neg hfits]
      have hnone : n - lineUnits line.chars = 0 := by omega
      rw [hnone, shown_zero, List.countP_singleton, isChanged_sliceUnits hfirst.2]
      generalize lines.countP (DiffLine.changes sign) = others
      cases line.changes sign with
      | false =>
        simp
        omega
      | true =>
        by_cases hpos : 0 < n
        · cases line.doubled sign with
          | false => simp [hpos]
          | true =>
            by_cases hthree : 3 ≤ n
            · simp [hpos, hthree]
            · simp [hpos, hthree]
              omega
        · simp [hpos]

theorem shown_of_fits {sign : Sign} {lines : List DiffLine} {n : Nat}
    (hlines : ∀ line ∈ lines, line.inHunk = true)
    (hfits : (lines.map fun line => lineUnits line.chars).sum ≤ n) :
    Shown sign n lines ↔ ∀ line ∈ lines, (line.changes sign && line.doubled sign) = false := by
  induction lines generalizing n with
  | nil => simp [Shown]
  | cons line lines ih =>
    rw [List.map_cons, List.sum_cons] at hfits
    have hrest := @ih (n - lineUnits line.chars)
      (fun l hl => hlines l (List.mem_cons_of_mem line hl)) (by omega)
    have hpos : 0 < lineUnits line.chars := Nat.succ_pos _
    rw [Shown, hrest, List.forall_mem_cons]
    apply and_congr_left
    intro _
    cases hboth : (line.changes sign && line.doubled sign) with
    | false =>
      rw [Bool.and_eq_false_iff] at hboth
      simp only [iff_true]
      intro hchanges
      refine ⟨by omega, fun hdoubled => ?_⟩
      rw [hchanges, hdoubled] at hboth
      simp at hboth
    | true =>
      have hunits := units_of_doubled (hlines line List.mem_cons_self) hboth
      rw [Bool.and_eq_true] at hboth
      simp only [Bool.true_eq_false, iff_false]
      intro h
      have hthree := (h hboth.1).2 hboth.2
      omega

theorem visible_append (top rest : List Text) (n : Nat) (h : (top.map lineUnits).sum ≤ n) :
    visible n (top ++ rest) = top ++ visible (n - (top.map lineUnits).sum) rest := by
  induction top generalizing n with
  | nil => rfl
  | cons line top ih =>
    rw [List.map_cons, List.sum_cons] at h
    rw [List.cons_append, visible, if_pos (by omega), ih _ (by omega), List.map_cons,
      List.sum_cons, Nat.sub_sub, List.cons_append]

def Diff.room (d : Diff) : Nat :=
  maxDiffUnits - (d.top.map fun line => lineUnits line.chars).sum

namespace Diff

variable (d : Diff)

theorem lines_well : ∀ line ∈ d.lines, line.isWell = true := by
  intro line hline
  cases List.mem_append.mp hline with
  | inl htop =>
    have hok := List.all_eq_true.mp d.top_ok line htop
    rw [Bool.and_eq_true] at hok
    exact hok.1
  | inr hhunk =>
    have hok := List.all_eq_true.mp d.hunks_ok line hhunk
    rw [Bool.and_eq_true] at hok
    exact hok.1

theorem hunks_well : ∀ line ∈ d.hunks, line.isWell = true ∧ line.inHunk = true := by
  intro line hline
  have hok := List.all_eq_true.mp d.hunks_ok line hline
  rw [Bool.and_eq_true] at hok
  exact hok

theorem top_plain (sign : Sign) : ∀ line ∈ d.top, line.changes sign = false := by
  intro line hline
  have hok := List.all_eq_true.mp d.top_ok line hline
  rw [Bool.and_eq_true, Bool.not_eq_true'] at hok
  cases line with
  | added text => cases hok.2
  | removed text => cases hok.2
  | header text => cases sign <;> rfl
  | oldName name => cases sign <;> rfl
  | newName name => cases sign <;> rfl
  | heading text => cases hok.2
  | context text => cases hok.2
  | note text => cases hok.2

theorem countP_top (sign : Sign) : d.top.countP (DiffLine.changes sign) = 0 := by
  rw [List.countP_eq_zero]
  intro line hline
  rw [d.top_plain sign line hline]
  exact Bool.false_ne_true

theorem panel_exact (sign : Sign) :
    (splitNewline (Panel.sliceUnits maxDiffUnits d.text)).countP (isCounted sign) =
      d.lines.countP (DiffLine.changes sign) ↔ Shown sign d.room d.hunks := by
  have hsingle : ∀ line ∈ d.lines.map DiffLine.chars, '\n' ∉ line := by
    intro chars hchars
    obtain ⟨line, hline, rfl⟩ := List.mem_map.mp hchars
    exact DiffLine.isWell_single (d.lines_well line hline)
  have hunits : ((d.top.map DiffLine.chars).map lineUnits).sum =
      (d.top.map fun line => lineUnits line.chars).sum := by
    rw [List.map_map]
    rfl
  have hcounted : isCounted sign = isChanged sign := funext (isCounted_eq sign)
  have htop : (d.top.map DiffLine.chars).countP (isChanged sign) = 0 := by
    rw [List.countP_eq_zero]
    intro chars hchars
    obtain ⟨line, hline, rfl⟩ := List.mem_map.mp hchars
    rw [DiffLine.isChanged_chars (d.lines_well line (List.mem_append_left _ hline)),
      d.top_plain sign line hline]
    exact Bool.false_ne_true
  have hvisible := visible_append (d.top.map DiffLine.chars) (d.hunks.map DiffLine.chars)
    maxDiffUnits (by rw [hunits]; exact d.top_short)
  have hhunks := (countP_visible sign d.hunks d.room d.hunks_well).2
  rw [text, splitNewline_sliceUnits _ _ hsingle, hcounted, lines, List.map_append, hvisible,
    List.countP_append, List.countP_append, htop, d.countP_top, Nat.zero_add, Nat.zero_add, hunits]
  exact hhunks

theorem route_exact (sign : Sign) :
    (splitlines d.text).countP (isChanged sign) = d.lines.countP (DiffLine.changes sign) ↔
      lost sign d.lines = stray sign d.lines := by
  have hcount := countP_splitlines sign d.lines d.lines_well
  rw [text]
  constructor
  · intro h
    omega
  · intro h
    omega

end Diff

theorem units_le_bytes (text : Text) :
    (text.map fun c => if c.toNat < 0x10000 then 1 else 2).sum ≤ utf8Bytes text := by
  induction text with
  | nil => exact Nat.le_refl 0
  | cons c text ih =>
    have hc : (if c.toNat < 0x10000 then 1 else 2) ≤ utf8Width c := by
      unfold utf8Width
      grind
    simp only [List.map_cons, List.sum_cons, utf8Bytes] at ih ⊢
    omega

theorem units_joined (lines : List Text) :
    ((joined lines).map fun c => if c.toNat < 0x10000 then 1 else 2).sum =
      (lines.map lineUnits).sum := by
  induction lines with
  | nil => rfl
  | cons line lines ih =>
    have hnewline : ('\n' : Char).toNat < 0x10000 := by decide
    rw [joined_cons, List.map_append, List.sum_append, List.map_cons, List.sum_cons, ih,
      if_pos hnewline, List.map_cons, List.sum_cons, lineUnits]
    omega

theorem Diff.fits_of_small (d : Diff) (h : utf8Bytes d.text ≤ maxPatchBytes) :
    (d.hunks.map fun line => lineUnits line.chars).sum ≤ d.room := by
  have hunits := units_le_bytes d.text
  rw [Diff.text, units_joined, Diff.lines, List.map_append, List.map_append, List.sum_append,
    List.map_map, List.map_map] at hunits
  rw [Diff.text, Diff.lines] at h
  have hlimits : maxPatchBytes ≤ maxDiffUnits := by decide
  have htop : (d.top.map (lineUnits ∘ DiffLine.chars)).sum =
      (d.top.map fun line => lineUnits line.chars).sum := rfl
  have hhunks : (d.hunks.map (lineUnits ∘ DiffLine.chars)).sum =
      (d.hunks.map fun line => lineUnits line.chars).sum := rfl
  rw [Diff.room]
  rw [List.map_append] at h
  omega

/-- Both counts are the numbers of added and removed lines. -/
structure CountsExact (d : Diff) : Prop where
  review : reviewCounts d.text = some d.counts
  panel : diffLineCounts d.text = d.counts

/-- No changed line's text starts with its sign twice, and behind no line end inside a line does a
piece look changed; and the route does count. -/
structure Countable (d : Diff) : Prop where
  text : isBinary d.text = false
  small : utf8Bytes d.text ≤ maxPatchBytes
  single : ∀ sign, ∀ line ∈ d.hunks, (line.changes sign && line.doubled sign) = false
  whole : ∀ sign, stray sign d.lines = 0

theorem lost_of_single {d : Diff} {sign : Sign}
    (h : ∀ line ∈ d.hunks, (line.changes sign && line.doubled sign) = false) :
    lost sign d.lines = 0 := by
  rw [lost, List.countP_eq_zero]
  intro line hline
  cases List.mem_append.mp hline with
  | inl htop =>
    rw [d.top_plain sign line htop, Bool.false_and]
    exact Bool.false_ne_true
  | inr hhunk =>
    rw [h line hhunk]
    exact Bool.false_ne_true

theorem reviewCounts_eq {patch : Text} {counts : Nat × Nat} :
    reviewCounts patch = some counts ↔ isBinary patch = false ∧ utf8Bytes patch ≤ maxPatchBytes ∧
      (splitlines patch).countP (isChanged .plus) = counts.1 ∧
      (splitlines patch).countP (isChanged .minus) = counts.2 := by
  unfold reviewCounts
  by_cases hrefused : isBinary patch ∨ maxPatchBytes < utf8Bytes patch
  · rw [if_pos hrefused]
    constructor
    · intro h
      cases h
    rintro ⟨htext, hsmall, -⟩
    cases hrefused with
    | inl hbinary =>
      rw [htext] at hbinary
      cases hbinary
    | inr hlong => omega
  · rw [if_neg hrefused, Option.some.injEq, Prod.ext_iff]
    have htext : isBinary patch = false := Bool.eq_false_iff.mpr fun h => hrefused (.inl h)
    have hsmall : utf8Bytes patch ≤ maxPatchBytes := Nat.not_lt.mp fun h => hrefused (.inr h)
    exact ⟨fun h => ⟨htext, hsmall, h⟩, fun h => h.2.2⟩

/-- Both counts are exact if and only if the diff is countable. -/
theorem countsExact_iff (d : Diff) : CountsExact d ↔ Countable d := by
  have hpanel : diffLineCounts d.text = d.counts ↔ ∀ sign, Shown sign d.room d.hunks := by
    rw [diffLineCounts, Diff.counts, Prod.ext_iff]
    constructor
    · intro h sign
      cases sign with
      | plus => exact (d.panel_exact .plus).mp h.1
      | minus => exact (d.panel_exact .minus).mp h.2
    · intro h
      exact ⟨(d.panel_exact .plus).mpr (h .plus), (d.panel_exact .minus).mpr (h .minus)⟩
  have hshown (sign : Sign) (hsmall : utf8Bytes d.text ≤ maxPatchBytes) :
      Shown sign d.room d.hunks ↔
        ∀ line ∈ d.hunks, (line.changes sign && line.doubled sign) = false :=
    shown_of_fits (fun line hline => (d.hunks_well line hline).2) (d.fits_of_small hsmall)
  constructor
  · intro h
    obtain ⟨htext, hsmall, hplus, hminus⟩ := reviewCounts_eq.mp h.review
    have hsingle : ∀ sign, ∀ line ∈ d.hunks, (line.changes sign && line.doubled sign) = false :=
      fun sign => (hshown sign hsmall).mp (hpanel.mp h.panel sign)
    have hroute : ∀ sign, lost sign d.lines = stray sign d.lines := by
      intro sign
      cases sign with
      | plus => exact (d.route_exact .plus).mp hplus
      | minus => exact (d.route_exact .minus).mp hminus
    refine ⟨htext, hsmall, hsingle, ?_⟩
    intro sign
    rw [← hroute sign, lost_of_single (hsingle sign)]
  · intro h
    have hroute (sign : Sign) : lost sign d.lines = stray sign d.lines := by
      rw [lost_of_single (h.single sign), h.whole sign]
    constructor
    · exact reviewCounts_eq.mpr ⟨h.text, h.small, (d.route_exact .plus).mpr (hroute .plus),
        (d.route_exact .minus).mpr (hroute .minus)⟩
    · exact hpanel.mpr fun sign => (hshown sign h.small).mpr (h.single sign)

/-- A diff that adds the line `++i;`. -/
def incremented : Diff where
  top := [.oldName "a/n.c".toList, .newName "b/n.c".toList]
  hunks := [.heading "-1 +1,2 @@".toList, .context "int i;".toList, .added "++i;".toList]
  top_ok := by decide
  hunks_ok := by decide
  top_short := by decide

/-- Neither count sees the added line. -/
theorem incremented_missed : ¬ CountsExact incremented := by
  intro h
  have hpanel := h.panel
  revert hpanel
  decide +kernel

end CodexBridge.Review
