import Mathlib.Algebra.GroupWithZero.Nat

/-! # Integers of JavaScript

A number that holds an integer is an `Int`. Sums are rounded to doubles, and the bitwise operators
work on the low 32 bits: all of them give signed results but `>>>`.
-/

namespace CodexBridge.Library.JsNumber

/-- The double closest to an integer below `2 ^ 1024`, ties to even. -/
def toDouble (n : Int) : Int :=
  if n.natAbs ≤ 2 ^ 53 then n
  else
    let unit := 2 ^ (n.natAbs.log2 - 52)
    let low := n.natAbs / unit
    let rest := n.natAbs % unit
    let up := decide (unit < 2 * rest) || (decide (unit = 2 * rest) && decide (low % 2 = 1))
    n.sign * (((if up then low + 1 else low) * unit : Nat) : Int)

/-- `x + y`. -/
def add (x y : Int) : Int := toDouble (x + y)

/-- `ToInt32`, as the bits. -/
def toBits (x : Int) : BitVec 32 := BitVec.ofInt 32 x

def ofCell (w : BitVec 32) : Int := w.toNat

/-- `x | y`. -/
def bitOr (x y : Int) : Int := (toBits x ||| toBits y).toInt

/-- `x & y`. -/
def bitAnd (x y : Int) : Int := (toBits x &&& toBits y).toInt

/-- `x ^ y`. -/
def bitXor (x y : Int) : Int := (toBits x ^^^ toBits y).toInt

/-- `~x`. -/
def bitNot (x : Int) : Int := (~~~toBits x).toInt

/-- `x << n`. -/
def shl (x : Int) (n : Nat) : Int := (toBits x <<< (n % 32)).toInt

/-- `x >>> n`. -/
def ushr (x : Int) (n : Nat) : Int := ofCell (toBits x >>> (n % 32))

/-! ## What the operators do to the bits -/

@[simp] theorem toBits_toInt (w : BitVec 32) : toBits w.toInt = w := BitVec.ofInt_toInt

@[simp] theorem toBits_ofCell (w : BitVec 32) : toBits (ofCell w) = w := by
  simp [toBits, ofCell]

theorem toBits_add (x y : Int) : toBits (x + y) = toBits x + toBits y := BitVec.ofInt_add x y

@[simp] theorem toBits_bitOr (x y : Int) : toBits (bitOr x y) = toBits x ||| toBits y :=
  toBits_toInt _

@[simp] theorem toBits_bitAnd (x y : Int) : toBits (bitAnd x y) = toBits x &&& toBits y :=
  toBits_toInt _

@[simp] theorem toBits_bitXor (x y : Int) : toBits (bitXor x y) = toBits x ^^^ toBits y :=
  toBits_toInt _

@[simp] theorem toBits_bitNot (x : Int) : toBits (bitNot x) = ~~~toBits x := toBits_toInt _

@[simp] theorem toBits_shl (x : Int) (n : Nat) : toBits (shl x n) = toBits x <<< (n % 32) :=
  toBits_toInt _

@[simp] theorem toBits_ushr (x : Int) (n : Nat) : toBits (ushr x n) = toBits x >>> (n % 32) :=
  toBits_ofCell _

/-- `x >>> 0`. -/
theorem ushr_zero (x : Int) : ushr x 0 = ofCell (toBits x) := by
  simp [ushr]

/-- A sum of `n` numbers, each a cell or the result of a bitwise operator. -/
def IsSum (n : Nat) (x : Int) : Prop := x.natAbs ≤ n * 2 ^ 32

theorem isSum_toInt (w : BitVec 32) : IsSum 1 w.toInt := by
  have hlow : -(2 ^ 31) ≤ w.toInt := BitVec.le_toInt w
  have hhigh : w.toInt < 2 ^ 31 := BitVec.toInt_lt
  unfold IsSum
  omega

theorem isSum_ofCell (w : BitVec 32) : IsSum 1 (ofCell w) := by
  have hlt := w.isLt
  unfold IsSum ofCell
  omega

theorem add_of_small {x y : Int} (h : (x + y).natAbs ≤ 2 ^ 53) : add x y = x + y := by
  unfold add toDouble
  rw [if_pos h]

theorem IsSum.add {n : Nat} {x y : Int} (hx : IsSum n x) (hy : IsSum 1 y) (hn : n ≤ 2 ^ 20) :
    IsSum (n + 1) (JsNumber.add x y) ∧ toBits (JsNumber.add x y) = toBits x + toBits y := by
  unfold IsSum at hx hy
  have htotal : (x + y).natAbs ≤ (n + 1) * 2 ^ 32 := by omega
  have hexact : JsNumber.add x y = x + y := add_of_small (by omega)
  rw [hexact]
  exact ⟨htotal, toBits_add x y⟩

theorem toBits_sum (x : Int) (ys : List Int) {n : Nat} (hx : IsSum n x) (hys : ∀ y ∈ ys, IsSum 1 y)
    (hn : n + ys.length ≤ 2 ^ 20) :
    toBits (ys.foldl add x) = ys.foldl (fun bits y => bits + toBits y) (toBits x) := by
  induction ys generalizing n x with
  | nil => rfl
  | cons y ys ih =>
    have hlength : n + (ys.length + 1) ≤ 2 ^ 20 := hn
    have hadd := hx.add (hys y List.mem_cons_self) (by omega)
    have hrest := ih (add x y) hadd.1 (fun z hz => hys z (List.mem_cons_of_mem y hz)) (by omega)
    rw [List.foldl_cons, List.foldl_cons, hrest, hadd.2]

/-- The cell a sum is stored in with `>>> 0`. -/
theorem ushr_sum (x : Int) (ys : List Int) {n : Nat} (hx : IsSum n x) (hys : ∀ y ∈ ys, IsSum 1 y)
    (hn : n + ys.length ≤ 2 ^ 20) :
    ushr (ys.foldl add x) 0 = ofCell (ys.foldl (fun bits y => bits + toBits y) (toBits x)) := by
  rw [ushr_zero, toBits_sum x ys hx hys hn]

theorem ushr_add {x y : Int} (hx : IsSum 1 x) (hy : IsSum 1 y) :
    ushr (add x y) 0 = ofCell (toBits x + toBits y) :=
  ushr_sum x [y] hx (by simp [hy]) (by simp)

end CodexBridge.Library.JsNumber
