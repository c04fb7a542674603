import CodexBridge.Library.Json

/-! # Codes that end themselves

An encoding as characters after which anything may follow: where the code of a value
ends can be told from the code. Such codes are injective, and compose.
-/

namespace Coding

variable {α β : Type}

/-- What stands in front of a text can be read off it. -/
def Delimited (f : α → List Char) : Prop :=
  ∀ a b rest rest', f a ++ rest = f b ++ rest' → a = b ∧ rest = rest'

variable {f : α → List Char}

theorem Delimited.pair {g : β → List Char} (hf : Delimited f)
    (hg : Delimited g) : Delimited fun p : α × β => f p.1 ++ g p.2 := by
  intro p q rest rest' h
  rw [List.append_assoc, List.append_assoc] at h
  obtain ⟨hfirst, h⟩ := hf _ _ _ _ h
  obtain ⟨hsecond, h⟩ := hg _ _ _ _ h
  exact ⟨Prod.ext hfirst hsecond, h⟩

theorem Delimited.comp {f : β → List Char} (hf : Delimited f) {g : α → β}
    (hg : Function.Injective g) : Delimited fun a => f (g a) := by
  intro a b rest rest' h
  obtain ⟨hsame, h⟩ := hf _ _ _ _ h
  exact ⟨hg hsame, h⟩

def ofNat : Nat → List Char
  | 0 => ['0']
  | n + 1 => '1' :: ofNat n

theorem delimited_ofNat : Delimited ofNat := by
  intro m
  induction m with
  | zero =>
    intro n rest rest' h
    cases n with
    | zero => exact ⟨rfl, (List.cons.inj h).2⟩
    | succ n => simp [ofNat] at h
  | succ m ih =>
    intro n rest rest' h
    cases n with
    | zero => simp [ofNat] at h
    | succ n =>
      obtain ⟨hmn, hrest⟩ := ih n rest rest' (List.cons.inj h).2
      exact ⟨congrArg Nat.succ hmn, hrest⟩

def ofList (f : α → List Char) : List α → List Char
  | [] => ['.']
  | a :: as => ',' :: (f a ++ ofList f as)

theorem Delimited.list (hf : Delimited f) : Delimited (ofList f) := by
  intro as
  induction as with
  | nil =>
    intro bs rest rest' h
    cases bs with
    | nil => exact ⟨rfl, (List.cons.inj h).2⟩
    | cons b bs => simp [ofList] at h
  | cons a as ih =>
    intro bs rest rest' h
    cases bs with
    | nil => simp [ofList] at h
    | cons b bs =>
      simp only [ofList, List.cons_append, List.append_assoc, List.cons.injEq, true_and] at h
      obtain ⟨hhead, htail⟩ := hf _ _ _ _ h
      obtain ⟨hmore, hrest⟩ := ih bs rest rest' htail
      exact ⟨by rw [hhead, hmore], hrest⟩

def ofOption (f : α → List Char) : Option α → List Char
  | none => ['n']
  | some a => 's' :: f a

theorem Delimited.option (hf : Delimited f) : Delimited (ofOption f) := by
  intro a b rest rest' h
  cases a with
  | none =>
    cases b with
    | none => exact ⟨rfl, (List.cons.inj h).2⟩
    | some b => simp [ofOption] at h
  | some a =>
    cases b with
    | none => simp [ofOption] at h
    | some b =>
      obtain ⟨hab, hrest⟩ := hf _ _ _ _ (List.cons.inj h).2
      exact ⟨congrArg some hab, hrest⟩

def ofString (s : String) : List Char := ofList (fun c => [c]) s.toList

theorem delimited_ofString : Delimited ofString := by
  have hchar : Delimited fun c : Char => [c] := by
    intro a b rest rest' h
    exact ⟨(List.cons.inj h).1, (List.cons.inj h).2⟩
  exact hchar.list.comp fun _ _ h => String.toList_inj.mp h

/-! ## JSON -/

mutual

def ofJson : Json → List Char
  | .null => ['z']
  | .bool b => if b then ['t'] else ['f']
  | .int (.ofNat n) => 'p' :: ofNat n
  | .int (.negSucc n) => 'm' :: ofNat n
  | .float literal => 'd' :: ofString literal
  | .str s => 'q' :: ofString s
  | .arr items => 'a' :: ofItems items
  | .obj fields => 'o' :: ofFields fields

def ofItems : List Json → List Char
  | [] => ['.']
  | item :: rest => ',' :: (ofJson item ++ ofItems rest)

def ofFields : List (String × Json) → List Char
  | [] => ['.']
  | (key, value) :: rest => ',' :: (ofString key ++ (ofJson value ++ ofFields rest))

end

mutual

theorem delimited_ofJson : ∀ (a b : Json) (rest rest' : List Char),
    ofJson a ++ rest = ofJson b ++ rest' → a = b ∧ rest = rest'
  | .null, b, rest, rest', h => by
      rcases b with _ | (_ | _) | (_ | _) | _ | _ | _ | _ <;> simp_all [ofJson]
  | .bool a, b, rest, rest', h => by
      rcases a with _ | _ <;> rcases b with _ | (_ | _) | (_ | _) | _ | _ | _ | _ <;>
        simp_all [ofJson]
  | .int (.ofNat m), b, rest, rest', h => by
      rcases b with _ | (_ | _) | (n | _) | _ | _ | _ | _ <;> simp [ofJson] at h
      obtain ⟨rfl, hrest⟩ := delimited_ofNat _ _ _ _ h
      exact ⟨rfl, hrest⟩
  | .int (.negSucc m), b, rest, rest', h => by
      rcases b with _ | (_ | _) | (_ | n) | _ | _ | _ | _ <;> simp [ofJson] at h
      obtain ⟨rfl, hrest⟩ := delimited_ofNat _ _ _ _ h
      exact ⟨rfl, hrest⟩
  | .float literal, b, rest, rest', h => by
      rcases b with _ | (_ | _) | (_ | _) | literal' | _ | _ | _ <;> simp [ofJson] at h
      obtain ⟨rfl, hrest⟩ := delimited_ofString _ _ _ _ h
      exact ⟨rfl, hrest⟩
  | .str s, b, rest, rest', h => by
      rcases b with _ | (_ | _) | (_ | _) | _ | s' | _ | _ <;> simp [ofJson] at h
      obtain ⟨rfl, hrest⟩ := delimited_ofString _ _ _ _ h
      exact ⟨rfl, hrest⟩
  | .arr items, b, rest, rest', h => by
      rcases b with _ | (_ | _) | (_ | _) | _ | _ | items' | _ <;> simp [ofJson] at h
      obtain ⟨rfl, hrest⟩ := delimited_ofItems items items' rest rest' h
      exact ⟨rfl, hrest⟩
  | .obj fields, b, rest, rest', h => by
      rcases b with _ | (_ | _) | (_ | _) | _ | _ | _ | fields' <;> simp [ofJson] at h
      obtain ⟨rfl, hrest⟩ := delimited_ofFields fields fields' rest rest' h
      exact ⟨rfl, hrest⟩

theorem delimited_ofItems : ∀ (as bs : List Json) (rest rest' : List Char),
    ofItems as ++ rest = ofItems bs ++ rest' → as = bs ∧ rest = rest'
  | [], bs, rest, rest', h => by
      cases bs with
      | nil => exact ⟨rfl, (List.cons.inj h).2⟩
      | cons b bs => simp [ofItems] at h
  | a :: as, bs, rest, rest', h => by
      cases bs with
      | nil => simp [ofItems] at h
      | cons b bs =>
        simp only [ofItems, List.cons_append, List.append_assoc, List.cons.injEq, true_and] at h
        obtain ⟨rfl, htail⟩ := delimited_ofJson a b _ _ h
        obtain ⟨rfl, hrest⟩ := delimited_ofItems as bs rest rest' htail
        exact ⟨rfl, hrest⟩

theorem delimited_ofFields : ∀ (as bs : List (String × Json)) (rest rest' : List Char),
    ofFields as ++ rest = ofFields bs ++ rest' → as = bs ∧ rest = rest'
  | [], bs, rest, rest', h => by
      cases bs with
      | nil => exact ⟨rfl, (List.cons.inj h).2⟩
      | cons b bs => simp [ofFields] at h
  | (key, a) :: as, bs, rest, rest', h => by
      cases bs with
      | nil => simp [ofFields] at h
      | cons b bs =>
        obtain ⟨key', b⟩ := b
        simp only [ofFields, List.cons_append, List.append_assoc, List.cons.injEq, true_and] at h
        obtain ⟨rfl, hvalue⟩ := delimited_ofString _ _ _ _ h
        obtain ⟨rfl, htail⟩ := delimited_ofJson a b _ _ hvalue
        obtain ⟨rfl, hrest⟩ := delimited_ofFields as bs rest rest' htail
        exact ⟨rfl, hrest⟩

end

end Coding
