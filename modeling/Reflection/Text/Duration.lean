/-!
# Durations

The text of a whole number of milliseconds.
-/

namespace Reflection.Text

/-- The digits of a fraction in thousandths, without zeros at the end. -/
def thousandths (n : Nat) : String :=
  let digits := (toString (1000 + n % 1000)).toList.drop 1
  String.ofList (digits.reverse.dropWhile (· = '0')).reverse

/-- The text of a duration in the largest unit that fits: `0ns`, `7ms`, `3s`, `1.5s`. -/
def duration (milliseconds : Nat) : String :=
  if milliseconds = 0 then "0ns"
  else if milliseconds < 1000 then s!"{milliseconds}ms"
  else
    let whole := toString (milliseconds / 1000)
    if milliseconds % 1000 = 0 then whole ++ "s"
    else whole ++ "." ++ thousandths milliseconds ++ "s"

end Reflection.Text
