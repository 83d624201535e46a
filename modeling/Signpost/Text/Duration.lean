/-!
# Durations in text

A duration of whole milliseconds is written in the largest of seconds, milliseconds and nanoseconds
in which it is not below one; seconds have up to three decimals and no zeros at their end.

## Main definitions

* `Text.duration`
-/

namespace Signpost.Text

/-- The decimals of a number of thousandths below one thousand, without zeros at their end. -/
def thousandths (n : Nat) : List Char :=
  if n = 0 then []
  else if n % 100 = 0 then '.' :: Nat.toDigits 10 (n / 100)
  else if n % 10 = 0 then
    '.' :: (List.replicate (2 - (Nat.toDigits 10 (n / 10)).length) '0' ++ Nat.toDigits 10 (n / 10))
  else '.' :: (List.replicate (3 - (Nat.toDigits 10 n).length) '0' ++ Nat.toDigits 10 n)

/-- The text of a duration given in milliseconds. -/
def duration (ms : Nat) : String :=
  if ms = 0 then "0ns"
  else if ms < 1000 then String.ofList (Nat.toDigits 10 ms) ++ "ms"
  else String.ofList (Nat.toDigits 10 (ms / 1000) ++ thousandths (ms % 1000)) ++ "s"

end Signpost.Text
