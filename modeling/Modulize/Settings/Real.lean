import Modulize.Text.Number

/-!
# Fractional numbers

A number that is written with a fraction or an exponent is kept with 53 binary digits, fewer where
its size does not leave room for them, and rounded to the nearest such number, to the even one of
two (`RealValue.ofNumeral`). What matters of it is whether it is a whole number, and which one
(`RealValue.read`).
-/

namespace Modulize

/-- What a number with a fraction or an exponent comes to. -/
inductive RealValue
  | whole (n : Int)
  | fractional
  | notFinite
  deriving DecidableEq, Repr

/-- A number as it is written: its sign, its digits, and the power of ten that belongs to the last
one. -/
structure Numeral where
  isNegative : Bool
  digits : Nat
  exponent : Int
  deriving DecidableEq, Repr

namespace Numeral

/-- Whether a minus sign stands in front of a text, and the text without its sign. -/
def splitSign (t : Text) : Bool × Text :=
  match t with
  | '-' :: r => (true, r)
  | '+' :: r => (false, r)
  | r => (false, r)

/-- The numeral that a text writes: digits, then perhaps a point and a fraction, then perhaps an
exponent. Nothing results for names of numbers. -/
def read? (t : Text) : Option Numeral :=
  let (isNegative, t) := splitSign (t.filter (· ≠ '_'))
  let mantissa := t.takeWhile fun c => c ≠ 'e' ∧ c ≠ 'E'
  let (isSmall, power) := splitSign (t.drop (mantissa.length + 1))
  let (whole, fraction) := (Text.cut? ['.'] mantissa).getD (mantissa, [])
  let power : Int := Text.ofDigits power
  if (whole ++ fraction).all Char.isDigit then
    some ⟨isNegative, Text.ofDigits (whole ++ fraction),
      (if isSmall then -power else power) - fraction.length⟩
  else none

/-- The number of decimal digits in front of the point. -/
def size (n : Numeral) : Int := n.exponent + (Nat.toDigits 10 n.digits).length

end Numeral

namespace RealValue

/-- The whole number nearest to a quotient, the even one of two. -/
def nearest (num den : Nat) : Nat :=
  let q := num / den
  let r := num % den
  if 2 * r < den ∨ (2 * r = den ∧ q % 2 = 0) then q else q + 1

/-- A quotient divided by a power of two. -/
def scaled (num den : Nat) (power : Int) : Nat × Nat :=
  if 0 ≤ power then (num, den * Nat.pow 2 power.toNat)
  else (num * Nat.pow 2 (-power).toNat, den)

/-- The greatest power of two that is not above a quotient. -/
def magnitude (num den : Nat) : Int :=
  let power : Int := Nat.log2 num - Nat.log2 den
  let (num, den) := scaled num den power
  if num < den then power - 1 else power

/-- The number of binary digits that are kept. -/
def precision : Nat := 53

/-- The smallest power of two that is kept. -/
def leastPower : Int := -1074

/-- A bound that finite numbers stay below. -/
def bound : Nat := Nat.pow 2 1024

/-- What a positive quotient comes to, without its sign. -/
def ofQuotient (num den : Nat) : RealValue :=
  let power := max (magnitude num den + 1 - precision) leastPower
  let (num, den) := scaled num den power
  let m := nearest num den
  if 0 ≤ power then
    let n := m * Nat.pow 2 power.toNat
    if n < bound then whole n else notFinite
  else
    let p := Nat.pow 2 (-power).toNat
    if m % p = 0 then whole (m / p) else fractional

/-- With the sign put in front. -/
def withSign (isNegative : Bool) : RealValue → RealValue
  | whole n => whole (if isNegative then -n else n)
  | v => v

/-- What a numeral comes to. Numerals far beyond all bounds are not worked out. -/
def ofNumeral (n : Numeral) : RealValue :=
  if n.digits = 0 ∨ n.size < -400 then whole 0
  else if 400 < n.size then notFinite
  else
    withSign n.isNegative
      (if 0 ≤ n.exponent then ofQuotient (n.digits * Nat.pow 10 n.exponent.toNat) 1
        else ofQuotient n.digits (Nat.pow 10 (-n.exponent).toNat))

/-- What a written number comes to; one that is no numeral is written by its name. -/
def read (t : Text) : RealValue :=
  match Numeral.read? t with
  | some n => ofNumeral n
  | none => notFinite

end RealValue

end Modulize
