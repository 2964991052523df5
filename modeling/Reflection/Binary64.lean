/-!
# Doubles

Numbers of the IEEE 754 binary64 format, kept as their bits. A finite number is `±m · 2^e` with
natural `m`, and everything here is computed on `m` and `e`: conversions round to nearest and ties
go to the even neighbour, and `text` finds the fewest decimal digits that read back as the number.
-/

namespace Reflection

/-- A number of the binary64 format, by its bits. -/
structure Binary64 where
  bits : UInt64
deriving DecidableEq, Repr, Inhabited

namespace Binary64

/-! ## Parts -/

/-- Is the sign bit set? -/
def isNegative (x : Binary64) : Bool :=
  Nat.pow 2 63 ≤ x.bits.toNat

/-- The biased exponent. -/
def exponentField (x : Binary64) : Nat :=
  x.bits.toNat / Nat.pow 2 52 % Nat.pow 2 11

/-- The stored fraction. -/
def fraction (x : Binary64) : Nat :=
  x.bits.toNat % Nat.pow 2 52

/-- Is it not a number? -/
def isNaN (x : Binary64) : Bool :=
  x.exponentField = 2047 && x.fraction ≠ 0

/-- Is it an infinity? -/
def isInfinite (x : Binary64) : Bool :=
  x.exponentField = 2047 && x.fraction = 0

/-- Is it zero, of either sign? -/
def isZero (x : Binary64) : Bool :=
  x.exponentField = 0 && x.fraction = 0

/-- The natural number `m` of a finite `±m · 2^e`. -/
def significand (x : Binary64) : Nat :=
  if x.exponentField = 0 then x.fraction else x.fraction + Nat.pow 2 52

/-- The exponent `e` of a finite `±m · 2^e`. -/
def exponent (x : Binary64) : Int :=
  (if x.exponentField = 0 then 1 else (x.exponentField : Int)) - 1075

/-- Equality of numbers: both zeros are equal, and what is not a number equals nothing. -/
def equal (x y : Binary64) : Bool :=
  !x.isNaN && !y.isNaN && (x.bits = y.bits || (x.isZero && y.isZero))

/-! ## Conversions -/

/-- The bits of the double nearest to a natural number, ties to even. -/
def bitsOfNat (n : Nat) : Nat :=
  if n = 0 then 0
  else
    let top := Nat.log2 n
    if top ≤ 52 then (top + 1022) * Nat.pow 2 52 + n * Nat.pow 2 (52 - top)
    else
      let unit := Nat.pow 2 (top - 52)
      let q := n / unit
      let r := n % unit
      let up := 2 * r > unit || (2 * r = unit && q % 2 = 1)
      (top + 1022) * Nat.pow 2 52 + (if up then q + 1 else q)

/-- The double nearest to an integer, ties to even. -/
def ofInt (i : Int) : Binary64 :=
  ⟨.ofNat ((if i < 0 then Nat.pow 2 63 else 0) + bitsOfNat i.natAbs)⟩

/-- The double with the value of a binary32 number, given by its bits. What is not a number keeps
its payload and becomes quiet. -/
def ofBinary32 (bits : UInt32) : Binary64 :=
  let n := bits.toNat
  let sign := n / Nat.pow 2 31 * Nat.pow 2 63
  let field := n / Nat.pow 2 23 % Nat.pow 2 8
  let fraction := n % Nat.pow 2 23
  let magnitude :=
    if field = 255 then
      2047 * Nat.pow 2 52 + (if fraction = 0 then 0 else (fraction * Nat.pow 2 29) ||| Nat.pow 2 51)
    else if field = 0 then
      if fraction = 0 then 0
      else
        let top := Nat.log2 fraction
        (top + 873) * Nat.pow 2 52 + fraction * Nat.pow 2 (52 - top)
    else (field + 896) * Nat.pow 2 52 + fraction * Nat.pow 2 29
  ⟨.ofNat (sign + magnitude)⟩

/-! ## Shortest decimal text -/

/-- A positive interval on a common denominator: its ends, the number inside that it surrounds, and
whether the ends belong to it. -/
structure Interval where
  low : Nat
  value : Nat
  high : Nat
  denominator : Nat
  closed : Bool

/-- The reals that round to a positive finite double: half way to its neighbours, ends included
exactly if the significand is even. Below a power of two the neighbour is only half as far. -/
def rounding (x : Binary64) : Interval :=
  let m := x.significand
  let e := x.exponent - 2
  let below := if x.fraction = 0 && x.exponentField > 1 then 1 else 2
  let scale := if e < 0 then 1 else Nat.pow 2 e.toNat
  { low := (4 * m - below) * scale
    value := 4 * m * scale
    high := (4 * m + 2) * scale
    denominator := if e < 0 then Nat.pow 2 (-e).toNat else 1
    closed := m % 2 = 0 }

/-- Does the interval hold `n · 10^k`? -/
def Interval.holds (i : Interval) (n : Nat) (k : Int) : Bool :=
  let (point, unit) := if k < 0 then (n * i.denominator, Nat.pow 10 (-k).toNat) else (n * i.denominator * Nat.pow 10 k.toNat, 1)
  if i.closed then i.low * unit ≤ point && point ≤ i.high * unit
  else i.low * unit < point && point < i.high * unit

/-- The multiple of `10^k` in the interval that is nearest to its number, the larger of two equally
near ones. -/
def Interval.nearest? (i : Interval) (k : Int) : Option Nat :=
  let (num, den) :=
    if k < 0 then (i.value * Nat.pow 10 (-k).toNat, i.denominator) else (i.value, i.denominator * Nat.pow 10 k.toNat)
  let n := num / den
  let r := num % den
  match i.holds n k, i.holds (n + 1) k with
  | true, true => if 2 * r < den then some n else some (n + 1)
  | true, false => some n
  | false, true => some (n + 1)
  | false, false => none

/-- The number of decimal digits before the point. -/
def Interval.decade (i : Interval) : Int :=
  if i.denominator ≤ i.value then ((Nat.toDigits 10 (i.value / i.denominator)).length : Int)
  else
    let inverse := (i.denominator - 1) / i.value
    1 - ((Nat.toDigits 10 inverse).length : Int)

/-- Digits and decimal exponent of the shortest decimal in an interval, trying `count` digits and,
if that is too few, up to `more` further ones. -/
def Interval.shortest (i : Interval) (count : Nat) : Nat → Nat × Int
  | 0 => (0, 0)
  | more + 1 =>
    let k := i.decade - count
    match i.nearest? k with
    | some n => (n, k)
    | none => i.shortest (count + 1) more

/-- `n · 10^k` without an exponent. -/
def positional (n : Nat) (k : Int) : List Char :=
  let digits := dropZeros (Nat.toDigits 10 n)
  let k := k + ((Nat.toDigits 10 n).length - digits.length : Nat)
  if 0 ≤ k then digits ++ List.replicate k.toNat '0'
  else
    let places := (-k).toNat
    if places < digits.length then
      digits.take (digits.length - places) ++ '.' :: digits.drop (digits.length - places)
    else ['0', '.'] ++ List.replicate (places - digits.length) '0' ++ digits
where
  /-- The digits without the zeros at the end. -/
  dropZeros (digits : List Char) : List Char :=
    (digits.reverse.dropWhile (· = '0')).reverse

/-- The shortest decimal that reads back as the number, nearest to it among those, never with an
exponent. -/
def text (x : Binary64) : String :=
  if x.isNaN then "NaN"
  else
    let magnitude :=
      if x.isInfinite then "inf"
      else if x.isZero then "0"
      else
        let (n, k) := x.rounding.shortest 1 17
        String.ofList (positional n k)
    if x.isNegative then "-" ++ magnitude else magnitude

end Binary64
end Reflection
