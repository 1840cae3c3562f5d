import Concord.Text.Digits

namespace Concord

/-- A natural number scaled by a power of ten. The number holds only the leading digits of a literal
that fit 64 bits. The number, the power and their product are each rounded to a double, so that near
the bound a literal may be out of range although the number it spells is not, and the other way
round. -/
structure Magnitude where
  significand : Nat
  exponent : Int
deriving DecidableEq

namespace Magnitude

/-- Significands stay below this bound. -/
def significandBound : Nat := 0x10000000000000000

/-- The magnitude of the digits before the point, behind those that the significand holds already.
From the first digit on that does not fit, each stands for a factor of ten. -/
def ofWhole (significand : Nat) : List Char → Magnitude
  | [] => ⟨significand, 0⟩
  | digit :: rest =>
    let extended := significand * 10 + Digits.value digit
    if extended < significandBound then ofWhole extended rest
    else ⟨significand, rest.length + 1⟩

/-- Takes up the digits behind the point, as far as they fit. -/
def withFraction (magnitude : Magnitude) : List Char → Magnitude
  | [] => magnitude
  | digit :: rest =>
    let extended := magnitude.significand * 10 + Digits.value digit
    if extended < significandBound then
      withFraction ⟨extended, magnitude.exponent - 1⟩ rest
    else magnitude

/-- The magnitude that the parts of a literal give. -/
def ofDigits (whole fraction : List Char) (power : Int) : Magnitude :=
  let read := (ofWhole 0 whole).withFraction fraction
  { read with exponent := read.exponent + power }

/-- The natural number of at most 53 significant bits that is nearest to a natural number. Of two
that are equally near, the one whose last bit is even. -/
def nearest (value : Nat) : Nat :=
  let unit := Nat.pow 2 (value.log2 - 52)
  let quotient := value / unit
  let rest := value % unit
  if unit < 2 * rest ∨ unit = 2 * rest ∧ quotient % 2 = 1 then (quotient + 1) * unit
  else quotient * unit

/-- The least power of two that is out of range of a double. -/
def range : Nat := Nat.pow 2 1024

/-- Whether a double can hold the magnitude. The powers of ten up to the 308th are doubles; to
divide by a power of ten never leads out of range. -/
def isFinite (magnitude : Magnitude) : Bool :=
  magnitude.significand == 0 || magnitude.exponent < 0 ||
    magnitude.exponent ≤ 308 &&
      nearest (nearest magnitude.significand * nearest (Nat.pow 10 magnitude.exponent.toNat)) < range

end Magnitude

end Concord
