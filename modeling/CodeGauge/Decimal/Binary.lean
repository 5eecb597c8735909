/-!
# Doubles and their shortest decimals

A double is no number, an infinity, or a mantissa times a power of two, which is an exact fraction.
Of the decimals that round to it the one with the fewest digits is taken, of several the one nearest
to it, and of two that are equally near the even one.
-/

namespace CodeGauge.Decimal

/-- A positive or zero multiple of a power of two with a sign. -/
structure Binary where
  negative : Bool
  mantissa : Nat
  exponent : Int
  deriving Repr, DecidableEq

/-- What a double stands for. -/
inductive Double where
  | nan
  | infinite (negative : Bool)
  | finite (value : Binary)
  deriving Repr, DecidableEq

/-- The least mantissa of a double whose exponent is not the least one: two to the power of
fifty-two. -/
def leastMantissa : Nat := 4503599627370496

def leastExponent : Int := -1074

/-- What a double stands for, from its sign bit, eleven bits of exponent and fifty-two bits of
mantissa. -/
def Double.ofFloat (x : Float) : Double :=
  let bits := x.toBits.toNat
  let negative := bits / 9223372036854775808 == 1
  let exponent : Nat := bits / leastMantissa % 2048
  let fraction : Nat := bits % leastMantissa
  if exponent = 2047 then
    if fraction = 0 then .infinite negative else .nan
  else if exponent = 0 then .finite ⟨negative, fraction, leastExponent⟩
  else .finite ⟨negative, leastMantissa + fraction, (exponent : Int) - 1 + leastExponent⟩

namespace Binary

def numerator (value : Binary) : Nat := value.mantissa * Nat.pow 2 value.exponent.toNat

def denominator (value : Binary) : Nat := Nat.pow 2 (-value.exponent).toNat

theorem denominator_pos (value : Binary) : 0 < value.denominator := Nat.two_pow_pos _

end Binary

/-- A whole number of units, each a power of ten. -/
structure Scaled where
  digits : Nat
  exponent : Int
  deriving Repr, DecidableEq

def digitCount (n : Nat) : Nat := (Nat.toDigits 10 n).length

/-- The numbers that round to a double, as fractions with one denominator. -/
structure Neighbourhood where
  centre : Nat
  lower : Nat
  upper : Nat
  denominator : Nat
  closed : Bool
  deriving Repr, DecidableEq

namespace Neighbourhood

/-- The neighbourhood of a double.  Its ends lie half-way to the neighbours; below a power of two
the neighbour is half as far. -/
def ofBinary (value : Binary) : Neighbourhood :=
  let below := if value.mantissa = leastMantissa ∧ leastExponent < value.exponent then 1 else 2
  let scale := Nat.pow 2 value.exponent.toNat
  ⟨4 * value.mantissa * scale, (4 * value.mantissa - below) * scale,
    (4 * value.mantissa + 2) * scale, 4 * value.denominator, value.mantissa % 2 = 0⟩

def inUnits (area : Neighbourhood) (exponent : Int) : Neighbourhood :=
  let factor := Nat.pow 10 (-exponent).toNat
  ⟨area.centre * factor, area.lower * factor, area.upper * factor,
    area.denominator * Nat.pow 10 exponent.toNat, area.closed⟩

def holds (area : Neighbourhood) (n : Nat) : Bool :=
  let point := n * area.denominator
  if area.closed then area.lower ≤ point && point ≤ area.upper
  else area.lower < point && point < area.upper

/-- The nearer of two whole numbers that follow one another around the double, and the even one of
two that are equally near. -/
def nearer (area : Neighbourhood) (n : Nat) : Nat :=
  match compare (2 * area.centre) ((2 * n + 1) * area.denominator) with
  | .lt => n
  | .gt => n + 1
  | .eq => if n % 2 = 0 then n else n + 1

/-- The whole number that stands for the double, if one next to it lies in the neighbourhood. -/
def whole? (area : Neighbourhood) : Option Nat :=
  let n := area.centre / area.denominator
  match area.holds n, area.holds (n + 1) with
  | true, true => some (area.nearer n)
  | true, false => some n
  | false, true => some (n + 1)
  | false, false => none

def leadingExponent (area : Neighbourhood) : Int :=
  if area.denominator ≤ area.centre then
    (digitCount (area.centre / area.denominator) : Int) - 1
  else -(digitCount ((area.denominator - 1) / area.centre) : Int)

theorem holds_of_whole? {area : Neighbourhood} {n : Nat} (found : area.whole? = some n) :
    area.holds n = true := by
  unfold whole? at found
  simp only at found
  split at found
  · rename_i first second
    rw [Option.some.injEq] at found
    subst found
    unfold nearer
    split
    · exact first
    · exact second
    · split
      · exact first
      · exact second
  · rename_i first _
    rw [Option.some.injEq] at found
    exact found ▸ first
  · rename_i _ second
    rw [Option.some.injEq] at found
    exact found ▸ second
  · simp at found

end Neighbourhood

/-- Moves the zeros at the end of the digits into the exponent, at most `limit` of them. -/
def Scaled.stripZeros : (limit : Nat) → Scaled → Scaled
  | 0, number => number
  | limit + 1, number =>
    if number.digits % 10 = 0 ∧ number.digits ≠ 0 then
      stripZeros limit ⟨number.digits / 10, number.exponent + 1⟩
    else number

/-- The exact decimal of a double. -/
def Binary.exact (value : Binary) : Scaled :=
  ⟨value.numerator * Nat.pow 5 (-value.exponent).toNat, -((-value.exponent).toNat : Int)⟩

def mostDigits : Nat := 17

/-- The shortest decimal that reads back as a double, without its sign. -/
def Binary.shortest (value : Binary) : Scaled :=
  if value.mantissa = 0 then ⟨0, 0⟩
  else
    let area := Neighbourhood.ofBinary value
    let leading := area.leadingExponent
    let found := (List.range mostDigits).findSome? fun (more : Nat) =>
      let exponent := leading - (more : Int)
      ((area.inUnits exponent).whole?).map fun digits => (⟨digits, exponent⟩ : Scaled)
    (found.getD value.exact).stripZeros mostDigits

end CodeGauge.Decimal
