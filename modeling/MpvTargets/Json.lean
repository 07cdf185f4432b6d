import Mathlib.Algebra.Group.Nat.Defs
import Mathlib.Algebra.Ring.Int.Defs
import Mathlib.Data.Nat.Log
import Mathlib.Tactic.SplitIfs
import Mathlib.Data.Fintype.Defs

/-! The values of `serde_json`: numbers as it keeps them (unsigned, negative or floating point),
objects with their members in key order, and the accessors the daemon and the client read them
with. Floating-point numbers are finite, since JSON has no others. -/

namespace MpvTargets

/-- A finite `f64` by its bit fields; the biased exponent 2047 (infinities and NaN) is left out. -/
structure F64 where
  negative : Bool
  exponent : Fin 2047
  mantissa : Fin (2 ^ 52)
  deriving DecidableEq, Repr

namespace F64

def IsZero (x : F64) : Prop := x.exponent = 0 ∧ x.mantissa = 0

instance (x : F64) : Decidable x.IsZero := inferInstanceAs (Decidable (_ ∧ _))

def zero (negative : Bool) : F64 := ⟨negative, 0, 0⟩

/-- `==` of `f64`: the two zeros are equal, all other finite numbers are equal to themselves only. -/
def eq (x y : F64) : Bool := decide (x = y ∨ (x.IsZero ∧ y.IsZero))

/-- `significand * 2 ^ (scale - 52)` for a significand between `2 ^ 52` and `2 ^ 53`, where a
significand rounded up to `2 ^ 53` carries into the exponent. -/
def ofSignificand (negative : Bool) (scale : Fin 64) (significand : Nat) : F64 where
  negative := negative
  exponent := ⟨scale.val + 1023 + (if significand = 2 ^ 53 then 1 else 0), by split <;> omega⟩
  mantissa := ⟨significand % 2 ^ 52, Nat.mod_lt _ (by decide)⟩

/-- Division by a power of two, rounded to nearest with ties to even. -/
def roundShift (value shift : Nat) : Nat :=
  let quotient := value / 2 ^ shift
  let rest := value % 2 ^ shift
  if 2 ^ shift < 2 * rest ∨ (2 * rest = 2 ^ shift ∧ quotient % 2 = 1) then quotient + 1 else quotient

/-- `value as f64` for a 64-bit magnitude with the given sign. -/
def ofMagnitude (negative : Bool) (value : Fin (2 ^ 64)) : F64 :=
  if h : value.val = 0 then zero false
  else
    let scale := Nat.log2 value.val
    have hscale : scale < 64 := (Nat.log2_lt h).mpr value.isLt
    if scale ≤ 52 then ofSignificand negative ⟨scale, hscale⟩ (value.val * 2 ^ (52 - scale))
    else ofSignificand negative ⟨scale, hscale⟩ (roundShift value.val (scale - 52))

/-- `f64::floor`. Below one in magnitude the result is a zero or minus one; from `2 ^ 52` on every
number is an integer; in between the fraction bits of the significand are cut off. -/
def floor (x : F64) : F64 :=
  if hsmall : x.exponent.val < 1023 then
    if x.negative ∧ ¬x.IsZero then ofSignificand true 0 (2 ^ 52) else zero x.negative
  else if hlarge : 1075 ≤ x.exponent.val then x
  else
    let shift := 1075 - x.exponent.val
    let significand := 2 ^ 52 + x.mantissa.val
    let rest := significand % 2 ^ shift
    if rest = 0 then x
    else
      let scale : Fin 64 := ⟨x.exponent.val - 1023, by omega⟩
      ofSignificand x.negative scale
        (if x.negative then significand - rest + 2 ^ shift else significand - rest)

end F64

/-- `serde_json::Number`: non-negative integers, negative integers (`negInt n` is `-(n + 1)`) and
floating-point numbers. -/
inductive Number where
  | posInt (value : UInt64)
  | negInt (value : Fin (2 ^ 63))
  | float (value : F64)
  deriving DecidableEq, Repr

/-- `serde_json::Value`. The members of an object are in key order. -/
inductive Value where
  | null
  | bool (value : Bool)
  | number (value : Number)
  | string (value : String)
  | array (elements : List Value)
  | object (members : List (String × Value))
  deriving Repr

namespace Number

def asI64 : Number → Option Int
  | posInt value => if value.toNat < 2 ^ 63 then some value.toNat else none
  | negInt value => some (-(value.val + 1))
  | float _ => none

def asU64 : Number → Option UInt64
  | posInt value => some value
  | _ => none

def asF64 : Number → F64
  | posInt value => F64.ofMagnitude false ⟨value.toNat, value.toNat_lt⟩
  | negInt value => F64.ofMagnitude true ⟨value.val + 1, by omega⟩
  | float value => value

end Number

namespace Value

def isNull : Value → Bool
  | null => true
  | _ => false

def asBool : Value → Option Bool
  | bool value => some value
  | _ => none

def asStr : Value → Option String
  | string value => some value
  | _ => none

def asI64 : Value → Option Int
  | number value => value.asI64
  | _ => none

def asU64 : Value → Option UInt64
  | number value => value.asU64
  | _ => none

def asF64 : Value → Option F64
  | number value => some value.asF64
  | _ => none

def asObject : Value → Option (List (String × Value))
  | object members => some members
  | _ => none

def asArray : Value → Option (List Value)
  | array elements => some elements
  | _ => none

/-- `Value::get` with a string: the member of that name, if the value is an object that has one. -/
def get (value : Value) (key : String) : Option Value :=
  value.asObject.bind fun members => (members.find? fun entry => entry.1 = key).map Prod.snd

def optional {α : Type} (encode : α → Value) : Option α → Value
  | none => null
  | some value => encode value

def float (value : F64) : Value := number (.float value)

def unsigned (value : UInt64) : Value := number (.posInt value)

end Value

/-- `u32::try_from` on an `i64`. -/
def u32OfI64 (value : Int) : Option UInt32 :=
  if 0 ≤ value ∧ value < 2 ^ 32 then some (UInt32.ofNat value.toNat) else none

/-- `u32::try_from` on a `u64`. -/
def u32OfU64 (value : UInt64) : Option UInt32 :=
  if value.toNat < 2 ^ 32 then some (UInt32.ofNat value.toNat) else none

theorem u32OfI64_toNat (value : UInt64) : u32OfI64 value.toNat = u32OfU64 value := by
  unfold u32OfI64 u32OfU64
  split_ifs with hi hu hu
  · rfl
  · omega
  · omega
  · rfl

/-- The server reads an unsigned 32-bit number through `as_i64`, the client through `as_u64`. -/
theorem u32_reads_agree (number : Number) :
    number.asI64.bind u32OfI64 = number.asU64.bind u32OfU64 := by
  cases number with
  | posInt value =>
      rw [Number.asI64, Number.asU64, Option.bind_some]
      split_ifs with h63
      · rw [Option.bind_some, u32OfI64_toNat]
      · have hlt : ¬value.toNat < 2 ^ 32 := by omega
        simp only [u32OfU64, if_neg hlt, Option.bind_none]
  | negInt value =>
      have hneg : ¬(0 ≤ -((value.val : Int) + 1) ∧ -((value.val : Int) + 1) < 2 ^ 32) := by omega
      rw [Number.asI64, Number.asU64, Option.bind_some, Option.bind_none, u32OfI64, if_neg hneg]
      · intro _ h
        cases h
  | float value => rfl

example : (F64.ofMagnitude false 13).floor = F64.ofMagnitude false 13 := by decide

/-- `12.75` has the significand `0b110011` at scale 3. -/
example : (F64.ofSignificand false 3 (51 * 2 ^ 47)).floor = F64.ofMagnitude false 12 ∧
    (F64.ofSignificand true 3 (51 * 2 ^ 47)).floor = F64.ofMagnitude true 13 := by decide

end MpvTargets
