import Signpost.Binary64

/-!
# The shortest decimal of a number

A finite binary64 number is written with the fewest significant digits that read back as the same
number; of several such decimals the nearest is taken, and of two equally near ones the even.

## Main definitions

* `Decimal`: digits and a power of ten.
* `Decimal.shortest`: the decimal of a nonzero number.
* `Binary64.text`: the number's text, positional from `1e-5` up to `1e16` and with an exponent
  elsewhere.
-/

namespace Signpost

/-- The decimal `digits * 10 ^ exponent`. -/
structure Decimal where
  digits : Nat
  exponent : Int
deriving DecidableEq

namespace Decimal

/-- The decimal digits of a natural number. -/
def digitsOf (n : Nat) : List Char := Nat.toDigits 10 n

/-- The decimal without the zeros at its end; at most `fuel` of them are taken away. -/
def trim : Nat → Decimal → Decimal
  | 0, d => d
  | fuel + 1, d =>
    if d.digits % 10 = 0 ∧ d.digits ≠ 0 then trim fuel ⟨d.digits / 10, d.exponent + 1⟩ else d

/-- The span of reals that round to a number, in quarters of `2 ^ -1074`.  Its ends belong to it
when the significand is even. -/
structure Span where
  low : Nat
  middle : Nat
  high : Nat
  closed : Bool

/-- The span of a number: half a step to either side, a quarter below a power of two. -/
def Span.of (x : Binary64) : Span where
  low :=
    if x.significand = Binary64.binade ∧ 0 < x.scale then (4 * x.significand - 1) <<< x.scale
    else (4 * x.significand - 2) <<< x.scale
  middle := 4 * x.units
  high := (4 * x.significand + 2) <<< x.scale
  closed := x.significand % 2 == 0

/-- Whether the span holds the point `n`, all three bounds being stretched by `factor`. -/
def Span.holds (s : Span) (factor n : Nat) : Bool :=
  if s.closed then decide (s.low * factor ≤ n) && decide (n ≤ s.high * factor)
  else decide (s.low * factor < n) && decide (n < s.high * factor)

/-- Every finite number, stretched by this power of ten, has more than seventeen digits before the
point. -/
def stretch : Nat := 400

/-- The decimal of the given number of digits that lies in the span, if there is one: one of the
two neighbours of the middle on that grid. -/
def ofSpan? (s : Span) (places count : Nat) : Option Decimal :=
  let factor := Nat.pow 10 stretch
  let step := Nat.pow 10 (places - count) <<< 1076
  let below := s.middle * factor / step
  let decimal (n : Nat) : Decimal := ⟨n, (places - count : Nat) - (stretch : Int)⟩
  let lower := s.holds factor (below * step)
  let upper := s.holds factor ((below + 1) * step)
  let gap := s.middle * factor - below * step
  match lower, upper with
  -- both neighbours read back: the nearer one is taken, and the even one of two equally near
  | true, true =>
    if 2 * gap < step then some (decimal below)
    else if step < 2 * gap then some (decimal (below + 1))
    else some (decimal (below + below % 2))
  | true, false => some (decimal below)
  | false, true => some (decimal (below + 1))
  | false, false => none

/-- The shortest decimal that reads back as the absolute value of a nonzero number. -/
def shortest (x : Binary64) : Decimal :=
  let s := Span.of x
  let places := (digitsOf ((s.middle * Nat.pow 10 stretch) >>> 1076)).length
  let found := (List.range 17).findSome? fun k => ofSpan? s places (k + 1)
  trim 20 (found.getD ⟨0, 0⟩)

end Decimal

/-- The text of a number: positional when the point falls within five places before and sixteen
places after the first digit, with at least one digit after the point, and otherwise one digit
before the point and an exponent. -/
def Binary64.text (x : Binary64) : List Char :=
  let sign := if x.negative then ['-'] else []
  if x.magnitude = 0 then sign ++ ['0', '.', '0']
  else
    let d := Decimal.shortest x
    let ds := Decimal.digitsOf d.digits
    let point : Int := ds.length + d.exponent
    if 0 ≤ d.exponent ∧ point ≤ 16 then
      sign ++ ds ++ List.replicate d.exponent.toNat '0' ++ ['.', '0']
    else if 0 < point ∧ point ≤ 16 then
      sign ++ ds.take point.toNat ++ '.' :: ds.drop point.toNat
    else if -5 < point ∧ point ≤ 0 then
      sign ++ ['0', '.'] ++ List.replicate point.natAbs '0' ++ ds
    else
      let power := point - 1
      let powerText := (if power < 0 then ['-'] else []) ++ Decimal.digitsOf power.natAbs
      let fraction := ds.drop 1
      sign ++ ds.take 1 ++ (if fraction.isEmpty then [] else '.' :: fraction) ++ 'e' :: powerText

end Signpost
