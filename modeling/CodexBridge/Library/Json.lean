import Mathlib.Data.List.Sort
import Mathlib.Data.String.Basic

/-! # JSON values and Python text checks

The values a JSON decoder returns, with the few questions Python code asks of
them. Object keys are assumed distinct, as a decoder leaves them.
-/

/-- A decoded JSON value; a non-integral number keeps its literal. -/
inductive Json where
  | null
  | bool (value : Bool)
  | int (value : Int)
  | float (literal : String)
  | str (value : String)
  | arr (items : List Json)
  | obj (fields : List (String × Json))

namespace Json

/-- `value.get(key)` on an object's fields. -/
def field? (fields : List (String × Json)) (key : String) : Option Json :=
  (fields.find? fun f => f.1 = key).map Prod.snd

/-- `set(value) == {…}` on an object's fields. -/
def hasExactly (fields : List (String × Json)) (keys : List String) : Bool :=
  (fields.all fun f => f.1 ∈ keys) && keys.all fun k => (field? fields k).isSome

/-! ## Decidable equality -/

mutual

def decEq : (a b : Json) → Decidable (a = b)
  | .null, .null => isTrue rfl
  | .bool a, .bool b => decidable_of_iff (a = b) (by simp)
  | .int a, .int b => decidable_of_iff (a = b) (by simp)
  | .float a, .float b => decidable_of_iff (a = b) (by simp)
  | .str a, .str b => decidable_of_iff (a = b) (by simp)
  | .arr as, .arr bs => @decidable_of_iff _ (as = bs) (by simp) (decEqItems as bs)
  | .obj as, .obj bs => @decidable_of_iff _ (as = bs) (by simp) (decEqFields as bs)
  | .null, .bool _ | .null, .int _ | .null, .float _ | .null, .str _ | .null, .arr _
  | .null, .obj _ | .bool _, .null | .bool _, .int _ | .bool _, .float _ | .bool _, .str _
  | .bool _, .arr _ | .bool _, .obj _ | .int _, .null | .int _, .bool _ | .int _, .float _
  | .int _, .str _ | .int _, .arr _ | .int _, .obj _ | .float _, .null | .float _, .bool _
  | .float _, .int _ | .float _, .str _ | .float _, .arr _ | .float _, .obj _ | .str _, .null
  | .str _, .bool _ | .str _, .int _ | .str _, .float _ | .str _, .arr _ | .str _, .obj _
  | .arr _, .null | .arr _, .bool _ | .arr _, .int _ | .arr _, .float _ | .arr _, .str _
  | .arr _, .obj _ | .obj _, .null | .obj _, .bool _ | .obj _, .int _ | .obj _, .float _
  | .obj _, .str _ | .obj _, .arr _ => isFalse (by simp)

def decEqItems : (as bs : List Json) → Decidable (as = bs)
  | [], [] => isTrue rfl
  | [], _ :: _ => isFalse (by simp)
  | _ :: _, [] => isFalse (by simp)
  | a :: as, b :: bs =>
    @decidable_of_iff _ (a = b ∧ as = bs) (by simp)
      (@instDecidableAnd _ _ (decEq a b) (decEqItems as bs))

def decEqFields : (as bs : List (String × Json)) → Decidable (as = bs)
  | [], [] => isTrue rfl
  | [], _ :: _ => isFalse (by simp)
  | _ :: _, [] => isFalse (by simp)
  | (k, a) :: as, (l, b) :: bs =>
    @decidable_of_iff _ ((k = l ∧ a = b) ∧ as = bs) (by simp)
      (@instDecidableAnd _ _ (@instDecidableAnd _ _ inferInstance (decEq a b))
        (decEqFields as bs))

end

instance : DecidableEq Json := decEq

def str? : Json → Option String
  | .str s => some s
  | _ => none

def bool? : Json → Option Bool
  | .bool b => some b
  | _ => none

/-- `type(value) is int`: a Boolean is not an integer here. -/
def int? : Json → Option Int
  | .int i => some i
  | _ => none

def truthy : Json → Bool
  | .null | .bool false | .int 0 | .str "" | .arr [] | .obj [] => false
  | .float literal =>
    (literal.toList.takeWhile fun c => c ≠ 'e' && c ≠ 'E').any fun c => c.isDigit && c ≠ '0'
  | _ => true

/-! ## Sorted keys -/

/-- The order of the fields of one object in `json.dumps(value, sort_keys=True)`. -/
def Precedes (f g : String × Json) : Prop := f.1 ≤ g.1

instance decidablePrecedes : DecidableRel Precedes := fun f g =>
  inferInstanceAs (Decidable (f.1 ≤ g.1))

mutual

/-- `json.loads(json.dumps(value, sort_keys=True))`. -/
def sorted : Json → Json
  | .arr items => .arr (sortedItems items)
  | .obj fields => .obj (sortedFields fields)
  | value => value

def sortedItems : List Json → List Json
  | [] => []
  | item :: items => sorted item :: sortedItems items

def sortedFields : List (String × Json) → List (String × Json)
  | [] => []
  | (key, value) :: fields => (sortedFields fields).orderedInsert Precedes (key, sorted value)

end

theorem pairwise_sortedFields (fields : List (String × Json)) :
    (sortedFields fields).Pairwise Precedes := by
  have htotal : Std.Total Precedes := ⟨fun f g => le_total f.1 g.1⟩
  have htrans : IsTrans _ Precedes := ⟨fun _ _ _ => le_trans⟩
  induction fields with
  | nil => exact List.Pairwise.nil
  | cons f fields ih =>
    unfold sortedFields
    exact ih.orderedInsert _ _

theorem mem_sortedFields {fields : List (String × Json)} {f : String × Json} :
    f ∈ sortedFields fields ↔ ∃ g ∈ fields, f = (g.1, sorted g.2) := by
  induction fields with
  | nil => simp [sortedFields]
  | cons g fields ih =>
    unfold sortedFields
    rw [List.mem_orderedInsert, ih]
    simp

/-- Fields in order with sorted values stay as they are. -/
theorem sortedFields_eq_self {fields : List (String × Json)} (h : fields.Pairwise Precedes)
    (hvalues : ∀ f ∈ fields, sorted f.2 = f.2) : sortedFields fields = fields := by
  induction fields with
  | nil => rfl
  | cons f fields ih =>
    obtain ⟨hfirst, hrest⟩ := List.pairwise_cons.mp h
    unfold sortedFields
    rw [ih hrest fun g hg => hvalues g (List.mem_cons_of_mem f hg),
      hvalues f List.mem_cons_self]
    cases fields with
    | nil => rfl
    | cons g rest => exact List.orderedInsert_cons_of_le _ rest (hfirst g List.mem_cons_self)

mutual

theorem sorted_sorted : ∀ value : Json, sorted (sorted value) = sorted value
  | .arr items => congrArg Json.arr (sortedItems_sortedItems items)
  | .obj fields => congrArg Json.obj (sortedFields_eq_self (pairwise_sortedFields fields)
      (sorted_of_mem_sortedFields fields))
  | .null | .bool _ | .int _ | .float _ | .str _ => rfl

theorem sortedItems_sortedItems : ∀ items : List Json,
    sortedItems (sortedItems items) = sortedItems items
  | [] => rfl
  | item :: items => congrArg₂ List.cons (sorted_sorted item) (sortedItems_sortedItems items)

theorem sorted_of_mem_sortedFields : ∀ (fields : List (String × Json)),
    ∀ f ∈ sortedFields fields, sorted f.2 = f.2
  | [], _, hf => by cases hf
  | (key, value) :: fields, f, hf => by
    unfold sortedFields at hf
    rcases (List.mem_orderedInsert _).mp hf with rfl | hf
    · exact sorted_sorted value
    · exact sorted_of_mem_sortedFields fields f hf

end

/-- Fields taken from sorted ones are sorted. -/
theorem sortedFields_of_sublist {fields kept : List (String × Json)}
    (h : kept.Sublist (sortedFields fields)) : sortedFields kept = kept :=
  sortedFields_eq_self ((pairwise_sortedFields fields).sublist h) fun f hf =>
    sorted_of_mem_sortedFields fields f (h.subset hf)

example : sorted (.obj [("b", .arr [.obj [("y", .null), ("x", .null)]]), ("a", .null)]) =
    .obj [("a", .null), ("b", .arr [.obj [("x", .null), ("y", .null)]])] := by decide +kernel

/-! ## Reading back -/

theorem length_mapM {α β : Type} {f : α → Option β} {xs : List α} {ys : List β}
    (h : xs.mapM f = some ys) : ys.length = xs.length := by
  induction xs generalizing ys with
  | nil =>
    cases h
    rfl
  | cons x rest ih =>
    rw [List.mapM_cons] at h
    obtain ⟨y, _, h⟩ := Option.bind_eq_some_iff.mp h
    obtain ⟨zs, hzs, h⟩ := Option.bind_eq_some_iff.mp h
    cases h
    rw [List.length_cons, List.length_cons, ih hzs]

/-- Reading what was written gives it back, where everything can be read. -/
theorem mapM_map_some {α β : Type} {write : α → β} {reader : β → Option α} {xs : List α}
    (h : ∀ x ∈ xs, reader (write x) = some x) : (xs.map write).mapM reader = some xs := by
  induction xs with
  | nil => rfl
  | cons x rest ih =>
    rw [List.map_cons, List.mapM_cons, h x List.mem_cons_self,
      ih fun y hy => h y (List.mem_cons_of_mem x hy)]
    rfl

theorem mapM_map_eq {α β : Type} {write : α → β} {reader : β → Option α} {xs ys : List α}
    (h : ∀ x ∈ xs, ∀ y, reader (write x) = some y → y = x)
    (hread : (xs.map write).mapM reader = some ys) : ys = xs := by
  induction xs generalizing ys with
  | nil =>
    cases hread
    rfl
  | cons x rest ih =>
    rw [List.map_cons, List.mapM_cons] at hread
    obtain ⟨y, hy, hread⟩ := Option.bind_eq_some_iff.mp hread
    obtain ⟨zs, hzs, hread⟩ := Option.bind_eq_some_iff.mp hread
    cases hread
    rw [h x List.mem_cons_self y hy, ih (fun z hz => h z (List.mem_cons_of_mem x hz)) hzs]

end Json

namespace PyText

def isSpace (c : Char) : Bool :=
  let n := c.toNat
  (9 ≤ n && n ≤ 13) || (28 ≤ n && n ≤ 32) || n = 133 || n = 160 || n = 5760 ||
    (8192 ≤ n && n ≤ 8202) || n = 8232 || n = 8233 || n = 8239 || n = 8287 || n = 12288

/-- `value != "" and value == value.strip()`. -/
def isTrimmed (s : String) : Bool :=
  match s.toList with
  | [] => false
  | c :: rest => !isSpace c && !isSpace ((c :: rest).getLast (List.cons_ne_nil c rest))

def strip (s : String) : String :=
  String.ofList ((s.toList.dropWhile isSpace).reverse.dropWhile isSpace).reverse

/-- `" ".join(value.split())`. -/
def collapse (s : String) : String :=
  " ".intercalate (((s.toList.splitOnP isSpace).filter (· ≠ [])).map String.ofList)

def utf8Length (s : String) : Nat := s.utf8ByteSize

/-- `len(value) == n` and every character is a lower-case hexadecimal digit. -/
def isLowerHex (n : Nat) (s : String) : Bool :=
  s.length = n && s.toList.all fun c => c.isDigit || ('a' ≤ c && c ≤ 'f')

end PyText
