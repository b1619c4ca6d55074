import Mathlib.Algebra.Order.Field.Rat
import Mathlib.Data.List.Basic

/-! # Machine numbers

The arithmetic of `u32` and `f64` as the planning code uses it. `f64` is `Float`, whose operations are those of IEEE 754
binary64 with one NaN. `u32` arithmetic panics on overflow in a debug build and wraps in a release build; a panic is
`none`.
-/

namespace TrtLlm.Raw

/-- Whether overflow checks are compiled in. -/
inductive Profile where
  | debug
  | release
deriving DecidableEq, Repr

namespace Profile

def add (profile : Profile) (a b : UInt32) : Option UInt32 :=
  if profile = .debug ∧ 2 ^ 32 ≤ a.toNat + b.toNat then none else some (a + b)

def mul (profile : Profile) (a b : UInt32) : Option UInt32 :=
  if profile = .debug ∧ 2 ^ 32 ≤ a.toNat * b.toNat then none else some (a * b)

variable {a b : UInt32}

theorem isSome_add_debug : (Profile.debug.add a b).isSome ↔ a.toNat + b.toNat < 2 ^ 32 := by
  simp only [add, true_and]
  split <;> simp <;> omega

theorem isSome_mul_debug : (Profile.debug.mul a b).isSome ↔ a.toNat * b.toNat < 2 ^ 32 := by
  simp only [mul, true_and]
  split <;> simp <;> omega

/-- A product that does not panic is the product. -/
theorem toNat_of_mul_debug {c : UInt32} (product : Profile.debug.mul a b = some c) : c.toNat = a.toNat * b.toNat := by
  simp only [mul, true_and, Option.ite_none_left_eq_some, Nat.not_le, Option.some.injEq] at product
  rw [← product.2, UInt32.toNat_mul, Nat.mod_eq_of_lt product.1]

@[simp]
theorem add_release (a b : UInt32) : Profile.release.add a b = some (a + b) := by simp [add]

@[simp]
theorem mul_release (a b : UInt32) : Profile.release.mul a b = some (a * b) := by simp [mul]

end Profile

theorem toNat_add_of_lt {a b : UInt32} (small : a.toNat + b.toNat < 2 ^ 32) : (a + b).toNat = a.toNat + b.toNat := by
  rw [UInt32.toNat_add, Nat.mod_eq_of_lt small]

theorem toNat_mul_of_lt {a b : UInt32} (small : a.toNat * b.toNat < 2 ^ 32) : (a * b).toNat = a.toNat * b.toNat := by
  rw [UInt32.toNat_mul, Nat.mod_eq_of_lt small]

theorem max_one {a : UInt32} (ne : a ≠ 0) : max a 1 = a := by
  change (if a ≤ 1 then 1 else a) = a
  split
  next le =>
    have pos : a.toNat ≠ 0 := fun zero => ne (UInt32.toNat.inj zero)
    have bound : a.toNat ≤ 1 := UInt32.le_iff_toNat_le.1 le
    exact UInt32.toNat.inj (show (1 : ℕ) = a.toNat by omega)
  · rfl

theorem max_one_ne_zero (a : UInt32) : max a 1 ≠ 0 := by
  by_cases zero : a = 0
  · rw [zero]
    decide
  · rwa [max_one zero]

/-- `u32::checked_div(b).unwrap_or(0)`. -/
def checkedDiv (a b : UInt32) : UInt32 := if b = 0 then 0 else a / b

/-! ### `f64` -/

/-- `f64::INFINITY`. -/
def infinity : Float := .ofBits 0x7ff0000000000000

/-- `f64::max`: NaN loses. -/
def fmax (a b : Float) : Float := if a.isNaN then b else if b.isNaN then a else if a < b then b else a

/-- `f64::min`: NaN loses. -/
def fmin (a b : Float) : Float := if a.isNaN then b else if b.isNaN then a else if b < a then b else a

/-- `f64::clamp`, which panics unless `min <= max`. -/
def clamp (value low high : Float) : Option Float :=
  if low ≤ high then
    some (if value < low then low else if high < value then high else value)
  else none

/-- `f64::partial_cmp`. -/
def partialCmp (a b : Float) : Option Ordering :=
  if a < b then some .lt else if b < a then some .gt else if a ≤ b then some .eq else none

/-- The integer by which `f64::total_cmp` compares. -/
def totalKey (a : Float) : ℤ :=
  let bits : ℕ := a.toBits.toNat
  if bits < 2 ^ 63 then bits else -(bits - 2 ^ 63 : ℕ) - 1

/-- `slice::sort_by` on a short slice: stable insertion from the right; a comparison may panic. The sorted part is kept
back to front. -/
def insertBack {α : Type*} (compare : α → α → Option Ordering) (x : α) : List α → Option (List α)
  | [] => some [x]
  | y :: sorted =>
    match compare x y with
    | none => none
    | some .lt => (insertBack compare x sorted).map (y :: ·)
    | some _ => some (x :: y :: sorted)

def sortBy {α : Type*} (compare : α → α → Option Ordering) (items : List α) : Option (List α) :=
  (items.foldlM (fun sorted x => insertBack compare x sorted) []).map List.reverse

/-! ### `str::parse::<f64>` -/

/-- The value of some decimal digits. -/
def digitsValue (digits : List Char) : ℕ := digits.foldl (fun value c => 10 * value + (c.toNat - 48)) 0

/-- An optional sign; `true` is minus. -/
def splitSign : List Char → Bool × List Char
  | '-' :: text => (true, text)
  | '+' :: text => (false, text)
  | text => (false, text)

/-- The exponent after a mantissa: none, or `e`, an optional sign and digits up to the end. -/
def parseExponent : List Char → Option ℤ
  | [] => some 0
  | c :: text =>
    if c = 'e' ∨ c = 'E' then
      let (negative, digits) := splitSign text
      if digits ≠ [] ∧ digits.all Char.isDigit then
        some (if negative then -(digitsValue digits : ℤ) else digitsValue digits)
      else none
    else none

/-- The fractional digits after a mantissa's integral part, and what follows them. -/
def splitFraction : List Char → List Char × List Char
  | '.' :: text => text.span Char.isDigit
  | text => ([], text)

/-- A decimal number without sign, correctly rounded. -/
def parseDecimal (text : List Char) : Option Float :=
  let (integral, rest) := text.span Char.isDigit
  let (fraction, rest) := splitFraction rest
  if integral = [] ∧ fraction = [] then none
  else
    (parseExponent rest).map fun exponent =>
      .ofModel (.ofScientific (digitsValue (integral ++ fraction)) (exponent - fraction.length))

def parseFloat (text : List Char) : Option Float :=
  let (negative, body) := splitSign text
  let magnitude :=
    if body.map Char.toLower = "inf".toList ∨ body.map Char.toLower = "infinity".toList then some infinity
    else if body.map Char.toLower = "nan".toList then some (infinity - infinity)
    else parseDecimal body
  magnitude.map fun value => if negative then -value else value

end TrtLlm.Raw
