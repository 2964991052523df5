/-!
# Numbers in digits

Reading natural numbers in a base up to sixteen.
-/

namespace Reflection.Text

/-- The value of a digit in a base up to sixteen. -/
def digitValue? (base : Nat) (c : Char) : Option Nat :=
  let value :=
    if c.isDigit then some (c.toNat - '0'.toNat)
    else if 'a' ≤ c && c ≤ 'f' then some (c.toNat - 'a'.toNat + 10)
    else if 'A' ≤ c && c ≤ 'F' then some (c.toNat - 'A'.toNat + 10)
    else none
  value.filter (· < base)

/-- The number that a list of digits spells after the digits of `n`. -/
def digitsValue? (base : Nat) : Nat → List Char → Option Nat
  | n, [] => some n
  | n, c :: rest =>
    match digitValue? base c with
    | some d => digitsValue? base (n * base + d) rest
    | none => none

end Reflection.Text
