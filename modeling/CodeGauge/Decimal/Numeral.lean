import CodeGauge.Decimal.Binary

/-!
# Written numbers

A numeral is a number as it stands on paper: a sign, the digits before and after the point, and a
power of ten.  A double is written by its shortest numeral or rounded to a number of places.
-/

namespace CodeGauge.Decimal

/-- A power of ten behind a numeral. -/
structure Power where
  negative : Bool
  digits : List Char
  deriving Repr, DecidableEq

/-- A number as it is written. -/
structure Numeral where
  negative : Bool
  whole : List Char
  fraction : List Char
  power : Option Power
  deriving Repr, DecidableEq

def digits (n : Nat) : List Char := Nat.toDigits 10 n

/-- The whole number that some decimal digits stand for. -/
def valueOf (digits : List Char) : Nat :=
  digits.foldl (fun value c => 10 * value + (c.toNat - '0'.toNat)) 0

namespace Power

def ofInt (exponent : Int) : Power := ⟨exponent < 0, Decimal.digits exponent.natAbs⟩

def exponent (power : Power) : Int :=
  if power.negative then -(valueOf power.digits : Int) else valueOf power.digits

/-- The text of a power of ten, with or without a plus sign before the exponent. -/
def render (plus : Bool) (power : Power) : List Char :=
  'e' :: (if power.negative then ['-'] else if plus then ['+'] else []) ++ power.digits

end Power

namespace Numeral

def ofNat (n : Nat) : Numeral := ⟨false, digits n, [], none⟩

def ofInt (n : Int) : Numeral := ⟨n < 0, digits n.natAbs, [], none⟩

def render (plus : Bool) (numeral : Numeral) : List Char :=
  (if numeral.negative then ['-'] else []) ++ numeral.whole ++
    (if numeral.fraction.isEmpty then [] else '.' :: numeral.fraction) ++
    match numeral.power with
    | some power => power.render plus
    | none => []

def isWhole (numeral : Numeral) : Bool := numeral.fraction.isEmpty && numeral.power.isNone

/-- The number that a numeral without point and power stands for. -/
def toInt? (numeral : Numeral) : Option Int :=
  if numeral.isWhole then
    some (if numeral.negative then -(valueOf numeral.whole : Int) else valueOf numeral.whole)
  else none

/-- The double nearest to what a numeral stands for. -/
def toFloat (numeral : Numeral) : Float :=
  let mantissa := valueOf (numeral.whole ++ numeral.fraction)
  let exponent := ((numeral.power.map Power.exponent).getD 0) - (numeral.fraction.length : Int)
  let size :=
    if exponent < 0 then Float.ofScientific mantissa true exponent.natAbs
    else Float.ofScientific mantissa false exponent.natAbs
  if numeral.negative then -size else size

end Numeral

/-- Which numbers are written without a power of ten. -/
structure Layout where
  /-- The least exponent of a leading digit that is written without a power of ten. -/
  plainFrom : Int
  /-- The least exponent of a leading digit from there on that is written with a power of ten. -/
  plainBelow : Int
  deriving Repr, DecidableEq

/-- The layout of the figures in reports: from 0.00001 on and below 10^16 there is no power of
ten. -/
def figureLayout : Layout where
  plainFrom := -5
  plainBelow := 16

/-- A number without a power of ten always shows a digit after the point. -/
def atLeastOneDigit (fraction : List Char) : List Char :=
  if fraction.isEmpty then ['0'] else fraction

def Layout.numeral (layout : Layout) (negative : Bool) (number : Scaled) : Numeral :=
  let shown := digits number.digits
  let leading := number.exponent + (shown.length : Int) - 1
  if number.digits = 0 then ⟨negative, ['0'], ['0'], none⟩
  else if leading < layout.plainFrom ∨ layout.plainBelow ≤ leading then
    ⟨negative, shown.take 1, shown.drop 1, some (.ofInt leading)⟩
  else if leading < 0 then
    ⟨negative, ['0'], List.replicate (leading.natAbs - 1) '0' ++ shown, none⟩
  else
    let places := leading.natAbs + 1
    let padded := shown ++ List.replicate (places - shown.length) '0'
    ⟨negative, padded.take places, atLeastOneDigit (padded.drop places), none⟩

/-- The shortest numeral of a finite double. -/
def Binary.numeral (value : Binary) : Numeral :=
  figureLayout.numeral value.negative value.shortest

/-- A quotient rounded to the nearest whole number, a tie to the even one. -/
def roundQuotient (numerator denominator : Nat) : Nat :=
  let quotient := numerator / denominator
  match compare (2 * (numerator % denominator)) denominator with
  | .lt => quotient
  | .gt => quotient + 1
  | .eq => if quotient % 2 = 0 then quotient else quotient + 1

/-- The numeral of a finite double with a fixed number of places. -/
def Binary.fixed (places : Nat) (value : Binary) : Numeral :=
  let scale := Nat.pow 10 places
  let units := roundQuotient (value.numerator * scale) value.denominator
  let tail := digits (units % scale)
  ⟨value.negative, digits (units / scale),
    if places = 0 then [] else List.replicate (places - tail.length) '0' ++ tail, none⟩

end CodeGauge.Decimal
