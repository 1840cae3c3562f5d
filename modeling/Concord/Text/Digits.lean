namespace Concord

namespace Digits

/-- The value of a decimal digit. -/
def value (digit : Char) : Nat :=
  digit.toNat - '0'.toNat

/-- The natural number that decimal digits spell. -/
def decimal (digits : List Char) : Nat :=
  digits.foldl (fun number digit => number * 10 + value digit) 0

/-- The value of a hexadecimal digit. -/
def hexValue? (c : Char) : Option Nat :=
  if '0' ≤ c ∧ c ≤ '9' then some (c.toNat - '0'.toNat)
  else if 'a' ≤ c ∧ c ≤ 'f' then some (c.toNat - 'a'.toNat + 10)
  else if 'A' ≤ c ∧ c ≤ 'F' then some (c.toNat - 'A'.toNat + 10)
  else none

/-- The hexadecimal digit of a number below sixteen. -/
def hexDigit (value : Nat) : Char :=
  if value < 10 then Char.ofNat ('0'.toNat + value) else Char.ofNat ('a'.toNat + (value - 10))

end Digits

end Concord
