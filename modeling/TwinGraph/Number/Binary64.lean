import TwinGraph.Text.Basic

/-! Finite binary floating-point numbers with 53 significant bits. A decimal is read as the
nearest of them, computed on whole numbers, and of two equally near ones the even one. -/
namespace TwinGraph

abbrev Binary64.Canonical (mantissa : Nat) (exponent : Int) : Prop :=
  mantissa < 0x20000000000000 ∧ -1074 ≤ exponent ∧ exponent ≤ 971 ∧
    (0x10000000000000 ≤ mantissa ∨ exponent = -1074)

/-- The number `mantissa * 2 ^ exponent`, or its opposite. Zero has two signs. -/
structure Binary64 where
  negative : Bool
  mantissa : Nat
  exponent : Int
  canonical : Binary64.Canonical mantissa exponent
  deriving DecidableEq, Repr

namespace Binary64

def zero (negative : Bool) : Binary64 := ⟨negative, 0, -1074, by decide⟩

/-- Equal as numbers: the two zeros are. -/
def sameValue (x y : Binary64) : Bool := x == y || (x.mantissa == 0 && y.mantissa == 0)

def roundQuotient (num den : Nat) : Nat :=
  let rest := 2 * (num % den)
  if rest < den then num / den
  else if den < rest then num / den + 1
  else num / den + num / den % 2

def inUnits (num den : Nat) (exponent : Int) : Nat × Nat :=
  if 0 ≤ exponent then (num, den * Nat.pow 2 exponent.toNat)
  else (num * Nat.pow 2 (-exponent).toNat, den)

/-- The least exponent, not below the smallest one, for which the quotient keeps within 53
bits. -/
def unitExponent (num den : Nat) : Int :=
  let fitting : Int := (num.log2 : Int) - den.log2 - 53
  let least := if fitting < -1074 then -1074 else fitting
  let (n, d) := inUnits num den least
  if n / d < 0x20000000000000 then least else least + 1

def ofQuotient (negative : Bool) (num den : Nat) : Option Binary64 :=
  let exponent := unitExponent num den
  let (n, d) := inUnits num den exponent
  let mantissa := roundQuotient n d
  if h : Canonical mantissa exponent then some ⟨negative, mantissa, exponent, h⟩
  else if h : Canonical (mantissa / 2) (exponent + 1) then
    some ⟨negative, mantissa / 2, exponent + 1, h⟩
  else none

/-- The number nearest to `digits * 10 ^ power`; absent if that is out of range. Decimals far
from the range are settled by their order of magnitude.

A reader that rounds the digits first and then scales them by a rounded power of ten rounds twice.
It comes to the same number as long as there are at most 15 digits and the power is between -22
and 22. Elsewhere it can come to a neighbour of the nearest number, or refuse a decimal next to the
greatest one, which is not followed here. -/
def ofDecimal (negative : Bool) (digits : Nat) (power : Int) : Option Binary64 :=
  let magnitude := power + (Text.ofNat digits).length
  if digits = 0 ∨ magnitude < -400 then some (zero negative)
  else if 400 < magnitude then none
  else if 0 ≤ power then ofQuotient negative (digits * Nat.pow 10 power.toNat) 1
  else ofQuotient negative digits (Nat.pow 10 (-power).toNat)

def toQuotient (x : Binary64) : Nat × Nat :=
  if 0 ≤ x.exponent then (x.mantissa * Nat.pow 2 x.exponent.toNat, 1)
  else (x.mantissa, Nat.pow 2 (-x.exponent).toNat)

end Binary64
end TwinGraph
