import CodexBridge.Library.JsonText
import CodexBridge.Library.Dict

/-! # The outbound preflight

Before a message is encoded its size is bounded by a walk over the values with an explicit
stack. Containers are objects with an identity: one may be met twice, or below itself.
-/

namespace CodexBridge.AppServer.Outbound

open JsonText

/-! ## Values -/

/-- A value; a container is known by its identity among `n` objects. -/
inductive Value (n : Nat)
  | null
  | bool (value : Bool)
  | int (value : Int)
  | float (value : FiniteFloat)
  | str (value : Text)
  | ref (object : Fin n)

inductive Container (n : Nat)
  | list (items : List (Value n))
  | tuple (items : List (Value n))
  | dict (entries : Dict Text (Value n))

abbrev Objects (n : Nat) : Type := Fin n → Container n

namespace Container

variable {n : Nat}

def children : Container n → List (Value n)
  | .list items => items
  | .tuple items => items
  | .dict entries => entries.entries.map Prod.snd

def keys : Container n → List Text
  | .list _ => []
  | .tuple _ => []
  | .dict entries => entries.entries.map Prod.fst

def length (c : Container n) : Nat := c.children.length

end Container

def maxStrDigits : Nat := 4300

inductive DumpsError
  /-- `ValueError`: more digits than an integer may have when it is written. -/
  | digits
  /-- `ValueError`: a container below itself. -/
  | circular

def commas : List Text → Text
  | [] => []
  | [part] => part
  | part :: rest => part ++ ofChars [','] ++ commas rest

def member (key value : Text) : Text := quote key ++ ofChars [':'] ++ value

def Container.text {n : Nat} (c : Container n) (texts : List Text) : Text :=
  match c with
  | .list _ | .tuple _ => ofChars ['['] ++ commas texts ++ ofChars [']']
  | .dict _ => ofChars ['\x7b'] ++ commas (List.zipWith member c.keys texts) ++ ofChars ['\x7d']

/-- `json.dumps` with `ensure_ascii` off and compact separators, below the containers `markers`.
Each level of containers uses up one of them, so that `n + 1` levels are always enough. -/
def dumpsAt {n : Nat} (objects : Objects n) : Nat → List (Fin n) → Value n → Except DumpsError Text
  | 0, _, _ => .error .circular
  | levels + 1, markers, value =>
    match value with
    | .null => .ok (ofChars ['n', 'u', 'l', 'l'])
    | .bool true => .ok (ofChars ['t', 'r', 'u', 'e'])
    | .bool false => .ok (ofChars ['f', 'a', 'l', 's', 'e'])
    | .int i =>
      if (decimalDigits i.natAbs).length > maxStrDigits then .error .digits
      else .ok (integer i)
    | .float f => .ok f.text
    | .str s => .ok (quote s)
    | .ref object =>
      if object ∈ markers then .error .circular
      else do
        let texts ← (objects object).children.mapM
          (dumpsAt objects levels (object :: markers))
        return (objects object).text texts

/-- `json.dumps(value, ensure_ascii=False, allow_nan=False, separators=(",", ":"))`. -/
def dumps {n : Nat} (objects : Objects n) (value : Value n) : Except DumpsError Text :=
  dumpsAt objects (n + 1) [] value

inductive Frame (n : Nat)
  | enter (value : Value n) (depth : Nat)
  | leave (object : Fin n)

structure Walk (n : Nat) where
  budget : Nat
  nodes : Nat
  active : List (Fin n)
  stack : List (Frame n)

/-- The loop of `_json_string_bytes`; it has no value where the function raises. -/
def stringBytesFrom (limit : Int) : Nat → Text → Option Nat
  | size, [] => some size
  | size, c :: rest =>
    let width :=
      if c.val = 0x22 ∨ c.val = 0x5C then some 2
      else if c.val < 0x20 then some 6
      else if c.val ≤ 0x7F then some 1
      else if c.val ≤ 0x7FF then some 2
      else if 0xD800 ≤ c.val ∧ c.val ≤ 0xDFFF then none
      else if c.val ≤ 0xFFFF then some 3
      else some 4
    width.bind fun w =>
      if ((size + w : Nat) : Int) > limit then none else stringBytesFrom limit (size + w) rest

/-- `_json_string_bytes`. -/
def stringBytes (limit : Int) (value : Text) : Option Nat :=
  if (value.length : Int) > limit then none else stringBytesFrom limit 2 value

def nodeLimit (limit : Int) : Nat := (max 128 (min 100000 (limit / 2 + 16))).toNat

/-- The loop over the keys, last one first: each is charged and its value pushed. -/
def pushEntries {n : Nat} (limit : Int) (depth : Nat) :
    List (Text × Value n) → Nat → List (Frame n) → Option (Nat × List (Frame n))
  | [], budget, stack => some (budget, stack)
  | (key, value) :: rest, budget, stack =>
    (stringBytes limit key).bind fun size =>
      if ((budget + size : Nat) : Int) > limit then none
      else pushEntries limit depth rest (budget + size) (.enter value (depth + 1) :: stack)

def enterContainer {n : Nat} (limit : Int) (nodes budget depth : Nat) (c : Container n)
    (stack : List (Frame n)) : Option (Nat × List (Frame n)) :=
  let own : Nat := match c with
    | .dict _ => budget + 2 + (c.length - 1) + c.length
    | .list _ | .tuple _ => budget + 2 + (c.length - 1)
  if ((own : Nat) : Int) > limit ∨ nodeLimit limit < c.length + nodes then none
  else
    match c with
    | .dict entries => pushEntries limit depth entries.entries.reverse own stack
    | .list items | .tuple items => some (own, items.map (.enter · (depth + 1)) ++ stack)

/-- One value taken from the stack; there is no next state where the function raises. -/
def enterValue {n : Nat} (objects : Objects n) (limit : Int) (w : Walk n) (value : Value n)
    (depth : Nat) (rest : List (Frame n)) : Option (Walk n) :=
  let nodes := w.nodes + 1
  if nodes > nodeLimit limit ∨ depth > 128 then none
  else
    let charged : Option (Walk n) := match value with
      | .null => some ⟨w.budget + 4, nodes, w.active, rest⟩
      | .bool b => some ⟨w.budget + (if b then 4 else 5), nodes, w.active, rest⟩
      | .str s => (stringBytes limit s).map fun size => ⟨w.budget + size, nodes, w.active, rest⟩
      | .int i => some ⟨w.budget + (max 1 (bitLength i) + 2), nodes, w.active, rest⟩
      | .float _ => some ⟨w.budget + 32, nodes, w.active, rest⟩
      | .ref object =>
        if object ∈ w.active then none
        else
          (enterContainer limit nodes w.budget depth (objects object)
            (.leave object :: rest)).map fun pushed =>
              ⟨pushed.1, nodes, object :: w.active, pushed.2⟩
    charged.bind fun next => if (next.budget : Int) > limit then none else some next

inductive Outcome
  | accepted
  /-- `AppServerProtocolError`. -/
  | rejected
deriving DecidableEq

def run {n : Nat} (objects : Objects n) (limit : Int) : Nat → Walk n → Option Outcome
  | 0, _ => none
  | fuel + 1, w =>
    match w.stack with
    | [] => some .accepted
    | .leave object :: rest =>
      run objects limit fuel { w with active := w.active.erase object, stack := rest }
    | .enter value depth :: rest =>
      match enterValue objects limit w value depth rest with
      | none => some .rejected
      | some next => run objects limit fuel next

/-- `_preflight_outbound_json(value, limit)` ends in this way. -/
def Preflight {n : Nat} (objects : Objects n) (limit : Int) (value : Value n) (o : Outcome) :
    Prop :=
  ∃ fuel, run objects limit fuel ⟨0, 0, [], [.enter value 0]⟩ = some o

def Child {n : Nat} (objects : Objects n) (parent child : Value n) : Prop :=
  ∃ object, parent = .ref object ∧ child ∈ (objects object).children

def Occurs {n : Nat} (objects : Objects n) : Value n → Value n → Prop :=
  Relation.ReflTransGen (Child objects)

def Cyclic {n : Nat} (objects : Objects n) (value : Value n) : Prop :=
  ∃ x, Occurs objects value x ∧ Relation.TransGen (Child objects) x x

def ShortIntegers {n : Nat} (objects : Objects n) (value : Value n) : Prop :=
  ∀ i, Occurs objects value (.int i) → (decimalDigits i.natAbs).length ≤ maxStrDigits

end CodexBridge.AppServer.Outbound
