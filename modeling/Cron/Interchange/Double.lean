import Cron.Text.Decimal

/-!
# Double-precision numbers

Data formats keep a number that is written with a point or an exponent in
double precision: a significand below `2 ^ 53` times a power of two, which is
`2 ^ (-1074)` or more.  Every operation is computed exactly on ratios of natural
numbers and then rounded once, to the nearest double and from halfway to the
even significand.

A numeral is read fast rather than with the least error: its leading digits,
as many as fit in 64 bits, become a double, which is then multiplied or divided
by a power of ten that is a double itself.  So the result may differ in the last
place from the double nearest to the numeral.  A double is written with the
fewest digits to which it is nearest, around a point if its magnitude is
ordinary and with an exponent otherwise.

Doubles have no sign here, and no infinity: a numeral above the range of
doubles is no number of a data format.
-/

namespace Cron.Interchange

/-! ## Ratios -/

/-- The ratio `num / den`. -/
structure Ratio where
  num : Nat
  den : Nat

namespace Ratio

/-- The ratio times `base` to the `k`. -/
def scale (r : Ratio) (base : Nat) (k : Int) : Ratio :=
  ⟨r.num * Nat.pow base k.toNat, r.den * Nat.pow base (-k).toNat⟩

/-- The product of two ratios. -/
def mul (r s : Ratio) : Ratio := ⟨r.num * s.num, r.den * s.den⟩

/-- The quotient of two ratios. -/
def div (r s : Ratio) : Ratio := ⟨r.num * s.den, r.den * s.num⟩

/-- The greatest `k` such that `base` to the `k` does not exceed a positive ratio.
The numbers of digits leave two candidates. -/
def log (r : Ratio) (base : Nat) : Int :=
  let k : Int := (Nat.toDigits base r.num).length - (Nat.toDigits base r.den).length
  let scaled := r.scale base (-k)
  if scaled.num < scaled.den then k - 1 else k

/-- The nearest natural number; from halfway, the even one. -/
def round (r : Ratio) : Nat :=
  let whole := r.num / r.den
  let twice := 2 * (r.num % r.den)
  if r.den < twice ∨ twice = r.den ∧ whole % 2 = 1 then whole + 1 else whole

end Ratio

/-! ## Numerals -/

/-- The number `digits` times ten to the `exponent`, as it is written in decimal. -/
structure Numeral where
  digits : Nat
  exponent : Int
deriving DecidableEq

namespace Numeral

/-- The exact value of a numeral. -/
def ratio (n : Numeral) : Ratio := (Ratio.mk n.digits 1).scale 10 n.exponent

/-- The digits that fit in 64 bits, from the left; the others only count for the exponent. -/
def leading (n : Numeral) : Numeral :=
  if n.digits < 18446744073709551616 then n else leading ⟨n.digits / 10, n.exponent + 1⟩
termination_by n.digits

end Numeral

/-! ## Doubles -/

/-- The number `significand` times two to the `exponent`.  Equal doubles have equal parts,
since a significand below `2 ^ 52` comes with the least exponent only. -/
structure Double where
  significand : Nat
  exponent : Int
deriving DecidableEq

namespace Double

/-- The least exponent. -/
def leastExponent : Int := -1074

/-- The double zero. -/
def zero : Double := ⟨0, leastExponent⟩

/-- The exact value of a double. -/
def ratio (x : Double) : Ratio := (Ratio.mk x.significand 1).scale 2 x.exponent

/-- The double nearest to a ratio.  Rounding may carry over into one more binary digit,
which is zero then. -/
def nearest (r : Ratio) : Double :=
  if r.num = 0 then zero
  else
    let exponent := max (r.log 2 - 52) leastExponent
    let significand := (r.scale 2 (-exponent)).round
    if significand < Nat.pow 2 53 then ⟨significand, exponent⟩
    else ⟨significand / 2, exponent + 1⟩

/-! ### Reading -/

/-- The double nearest to ten to the `k`. -/
def tenTo (k : Nat) : Double := nearest ⟨Nat.pow 10 k, 1⟩

/-- A double times ten to the `k`, with one rounding for the power of ten and one for the
product or quotient.  Powers above `10 ^ 308` are no doubles, so a division by one of them
takes several steps. -/
def timesTenTo (x : Double) (k : Int) : Double :=
  if x.significand = 0 then x
  else if k < -308 then (nearest (x.ratio.div (tenTo 308).ratio)).timesTenTo (k + 308)
  else if k < 0 then nearest (x.ratio.div (tenTo (-k).toNat).ratio)
  else nearest (x.ratio.mul (tenTo k.toNat).ratio)
termination_by (-k).toNat

/-- Reads a numeral. -/
def ofNumeral (n : Numeral) : Double :=
  (nearest ⟨n.leading.digits, 1⟩).timesTenTo n.leading.exponent

/-! ### The fewest digits -/

/-- The exponent of a numeral for `x` that has so many digits. -/
def numeralExponent (x : Double) (places : Nat) : Int := x.ratio.log 10 + 1 - places

/-- The numeral with so many digits that is nearest to a double; from halfway, the even one. -/
def toNumeral (x : Double) (places : Nat) : Numeral :=
  let exponent := x.numeralExponent places
  ⟨(x.ratio.scale 10 (-exponent)).round, exponent⟩

/-- A numeral with so many digits to which a double is nearest, if there is one: the one next to
the double, or else the neighbour on the other side.  That one can do if the double is a
power of two, as the doubles below it lie closer together than those above. -/
def shorten? (x : Double) (places : Nat) : Option Numeral :=
  let next := x.toNumeral places
  [next, ⟨next.digits - 1, next.exponent⟩, ⟨next.digits + 1, next.exponent⟩].find?
    fun n => nearest n.ratio = x

/-- The numeral with the fewest digits to which a double is nearest.  The search starts without
any digit, where the next power of ten may still do, and ends with seventeen digits, which tell
all doubles apart. -/
def shortest (x : Double) : Numeral :=
  ((List.range 17).findSome? x.shorten?).getD (x.toNumeral 17)

/-! ### Text -/

/-- Digits around a point, where the first digit counts powers of ten to the `order`.  There is
a digit on both sides of the point. -/
def positional (digits : List Char) (order : Int) : List Char :=
  let whole := order.toNat + 1
  let shown := List.replicate (-order).toNat '0' ++ digits
  let filled := shown ++ List.replicate (whole + 1 - shown.length) '0'
  filled.take whole ++ '.' :: filled.drop whole

/-- Digits with an exponent, which has a sign always.  A digit alone has no point. -/
def scientific (digits : List Char) (order : Int) : List Char :=
  let places := digits.drop 1
  digits.take 1 ++ (if places.isEmpty then [] else '.' :: places) ++
    'e' :: (if order < 0 then '-' else '+') :: Text.Decimal.write order.natAbs

/-- A double in decimal.  Below `10 ^ (-5)` and from `10 ^ 16` on it has an exponent. -/
def text (x : Double) : List Char :=
  if x = zero then positional [] 0
  else
    let n := x.shortest
    let digits := Text.Decimal.write n.digits
    let significant := (digits.reverse.dropWhile (· == '0')).reverse
    let order := n.exponent + digits.length - 1
    if -5 ≤ order ∧ order ≤ 15 then positional significant order
    else scientific significant order

end Double

end Cron.Interchange
