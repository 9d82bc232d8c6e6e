/-!
# The shortest decimal of a binary floating-point number

A positive double is `m · 2 ^ q` with natural `m`.  The reals that round to it
form an interval around it, whose ends belong to it when `m` is even.
`shortest` takes the coarsest decimal grid, of one digit up to seventeen, that
has a point in the interval, and of its points the one nearest to the number.
Only the two grid points next to the number need a look: if any point of the
grid lies in the interval, so does one of these.

Everything is exact arithmetic of natural numbers.  A number is kept as a
numerator over a common denominator.
-/

namespace PathRegistry.Decimal

/-- A positive number and the ends of the interval that rounds to it, over a
common denominator. -/
structure Interval where
  /-- The numerator of the lower end. -/
  low : Nat
  /-- The numerator of the number. -/
  value : Nat
  /-- The numerator of the upper end. -/
  high : Nat
  /-- The common denominator. -/
  denominator : Nat
  /-- Whether the ends belong to the interval. -/
  closed : Bool

/-- The interval of `m · 2 ^ q`.  Below a power of two the neighbours are twice
as close, which `narrow` tells. -/
def Interval.ofBinary (m : Nat) (q : Int) (narrow : Bool) : Interval :=
  let unit := Nat.pow 2 q.toNat
  { low := (4 * m - (if narrow then 1 else 2)) * unit
    value := 4 * m * unit
    high := (4 * m + 2) * unit
    denominator := 4 * Nat.pow 2 (-q).toNat
    closed := m % 2 == 0 }

/-- The interval of the positive double with the given bits. -/
def Interval.ofBits (bits : Nat) : Interval :=
  let fraction : Nat := bits % 0x10000000000000
  let exponent : Nat := bits / 0x10000000000000 % 0x800
  if exponent = 0 then .ofBinary fraction (-1074) false
  else
    .ofBinary (fraction + 0x10000000000000) ((exponent : Int) - 1075)
      (fraction = 0 && 1 < exponent)

/-- The exponent of the leading decimal digit of `value / denominator`. -/
def Interval.leadingExponent (i : Interval) : Int :=
  if i.denominator ≤ i.value then
    ((Nat.toDigits 10 (i.value / i.denominator)).length : Int) - 1
  else
    -(((List.range 400).find? fun j => i.denominator ≤ i.value * Nat.pow 10 j).getD 400 : Int)

/-- A decimal number `digits · 10 ^ exponent`. -/
structure Scaled where
  /-- The digits, as a natural number. -/
  digits : Nat
  /-- The power of ten. -/
  exponent : Int
deriving DecidableEq, Repr

/-- The point of the grid of multiples of `10 ^ k` that lies in the interval and
is nearest to the number; of two equally near the even one. -/
def Interval.nearest? (i : Interval) (k : Int) : Option Scaled :=
  let up := Nat.pow 10 (-k).toNat
  let unit := i.denominator * Nat.pow 10 k.toNat
  let below := i.value * up / unit
  let lies (d : Nat) : Bool :=
    if i.closed then i.low * up ≤ d * unit && d * unit ≤ i.high * up
    else i.low * up < d * unit && d * unit < i.high * up
  let down := i.value * up - below * unit
  let rise := (below + 1) * unit - i.value * up
  let preferBelow := down < rise || (down == rise && below % 2 == 0)
  if lies below && (preferBelow || !lies (below + 1)) then some ⟨below, k⟩
  else if lies (below + 1) then some ⟨below + 1, k⟩
  else none

/-- A decimal without trailing zeros among its digits. -/
def Scaled.trim (s : Scaled) : Scaled :=
  (List.range 18).foldl
    (fun t _ => if t.digits ≠ 0 ∧ t.digits % 10 = 0 then ⟨t.digits / 10, t.exponent + 1⟩ else t) s

/-- The decimal of fewest digits in the interval. -/
def Interval.shortest (i : Interval) : Scaled :=
  let e := i.leadingExponent
  (((List.range 17).findSome? fun (n : Nat) => i.nearest? (e - n)).getD ⟨0, 0⟩).trim

/-- A decimal in positional or scientific notation: positional from `1e-5` up to
below `1e16`, with at least one digit behind the point; else with the point
behind the first of several digits and a sign in front of every exponent. -/
def Scaled.text (s : Scaled) : String :=
  let digits := Nat.toDigits 10 s.digits
  let n : Int := digits.length
  let point := n + s.exponent
  let zeros (k : Int) := List.replicate k.toNat '0'
  let chars :=
    if 0 ≤ s.exponent ∧ point ≤ 16 then digits ++ zeros s.exponent ++ ['.', '0']
    else if 0 < point ∧ point ≤ 16 then
      digits.take point.toNat ++ '.' :: digits.drop point.toNat
    else if -5 < point ∧ point ≤ 0 then ['0', '.'] ++ zeros (-point) ++ digits
    else
      let lead := if n = 1 then digits else digits.take 1 ++ '.' :: digits.drop 1
      let mark := if 0 ≤ point - 1 then ['e', '+'] else ['e', '-']
      lead ++ mark ++ Nat.toDigits 10 (point - 1).natAbs
  String.ofList chars

/-- The shortest text that reads back as the finite double `x`. -/
def textOfFloat (x : Float) : String :=
  let bits := x.toBits.toNat
  let sign := if 0x8000000000000000 ≤ bits then "-" else ""
  let magnitude := bits % 0x8000000000000000
  sign ++ if magnitude = 0 then "0.0" else (Interval.ofBits magnitude).shortest.text

end PathRegistry.Decimal
