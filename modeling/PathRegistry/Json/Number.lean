import PathRegistry.Decimal.Shortest
import PathRegistry.Json.Lexeme

/-!
# The value of a number

A number without point and exponent that fits 64 bits is whole; every other one
is a double.  The double is made from the leading digits that fit 64 bits and a
power of ten, by one multiplication or division at a time, and must be finite.
The number `-0` is a double, for no whole number has that sign.
-/

namespace PathRegistry.Json

/-- The value of a digit. -/
def digitValue (c : Char) : Nat := c.toNat - '0'.toNat

/-- Appends digits to a number while it stays below 2 ^ 64, and says how many
were appended. -/
def appendDigits (n : Nat) : List Char → Nat × Nat
  | [] => (n, 0)
  | d :: ds =>
    let next := n * 10 + digitValue d
    if next < 0x10000000000000000 then
      let r := appendDigits next ds
      (r.1, r.2 + 1)
    else (n, 0)

/-- `10 ^ n` as a double. -/
def powerOfTen (n : Nat) : Float := Float.ofScientific 1 false n

/-- `x · 10 ^ exponent`, in steps of at most 308 powers down and at most one up;
nothing if it is not finite.  `steps` bounds the steps down. -/
def scale? (x : Float) (exponent : Int) : (steps : Nat) → Option Float
  | 0 => some x
  | steps + 1 =>
    if exponent.natAbs ≤ 308 then
      if 0 ≤ exponent then
        let y := x * powerOfTen exponent.natAbs
        if y.isInf then none else some y
      else some (x / powerOfTen exponent.natAbs)
    else if x == 0.0 then some x
    else if 0 ≤ exponent then none
    else scale? (x / powerOfTen 308) (exponent + 308) steps

/-- The number that digits stand for. -/
def valueOfDigits (ds : List Char) : Nat :=
  ds.foldl (fun n d => n * 10 + digitValue d) 0

/-- The double that a numeral stands for, nothing if it is too large. -/
def Numeral.toFloat? (n : Numeral) : Option Float :=
  let (whole, taken) := appendDigits 0 n.whole
  let (digits, places) := appendDigits whole n.fraction
  let start : Int := (n.whole.length - taken : Nat) - (places : Int)
  let x := digits.toUInt64.toFloat
  match n.exponent with
  | none => scale? x start 8
  | some (negative, ds) =>
    let e := valueOfDigits ds
    if 0x80000000 ≤ e then
      if digits ≠ 0 ∧ negative = false then none else some 0.0
    else scale? x (if negative then start - e else start + e) (e / 308 + n.fraction.length + 8)

/-- How many of the digits follow the one with which a number reaches 2 ^ 31. -/
def digitsBehindOverflow (n : Nat) : List Char → Nat
  | [] => 0
  | d :: ds =>
    let next := n * 10 + digitValue d
    if next < 0x80000000 then digitsBehindOverflow next ds else ds.length

/-- How many characters of a numeral that is too large need not be read to see that
it is: those behind the exponent's overflow. -/
def Numeral.unread (n : Numeral) : Nat :=
  match n.exponent with
  | none => 0
  | some (_, ds) => digitsBehindOverflow 0 ds

/-- What messages show of a number; nothing if it is too large. -/
def Numeral.found? (n : Numeral) (negative : Bool) : Option Found :=
  let whole := valueOfDigits n.whole
  if n.fraction = [] ∧ n.exponent = none ∧
      (if negative then 0 < whole ∧ whole ≤ 0x8000000000000000
        else whole < 0x10000000000000000) then
    some (.integer ((if negative then "-" else "") ++ toString whole))
  else
    n.toFloat?.map fun x => .floating (Decimal.textOfFloat (if negative then -x else x))

end PathRegistry.Json
