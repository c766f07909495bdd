import TwinGraph.Number.Shortest

/-! The numbers of a document. A numeral without point and exponent is a whole number if it
fits 64 bits, signed or not; every other numeral is a floating-point number. -/
namespace TwinGraph

abbrev Number.Fits (value : Int) : Prop :=
  -0x8000000000000000 ≤ value ∧ value < 0x10000000000000000

inductive Number where
  | whole (value : Int) (fits : Number.Fits value)
  | float (value : Binary64)
  deriving DecidableEq, Repr

namespace Number

/-- Equal values of the same kind; a whole number never equals a floating-point one. -/
def sameValue : Number → Number → Bool
  | whole m _, whole n _ => m == n
  | float x, float y => x.sameValue y
  | _, _ => false

def signed64? : Number → Option Int
  | whole n _ => if n < 0x8000000000000000 then some n else none
  | float _ => none

def natural? : Number → Option Nat
  | whole n _ => if 0 ≤ n then some n.toNat else none
  | float _ => none

def render : Number → Text
  | whole n _ => if 0 ≤ n then Text.ofNat n.toNat else '-' :: Text.ofNat n.natAbs
  | float x => x.render

/-- A whole number if it fits, else the nearest floating-point number. A zero with a minus
sign is the floating-point one. -/
def ofNumeral (negative : Bool) (digits : Nat) : Option Number :=
  let value : Int := if negative then -digits else digits
  if h : ¬ (negative = true ∧ digits = 0) ∧ Fits value then
    some (whole value h.2)
  else (Binary64.ofDecimal negative digits 0).map float

def ofDecimal (negative : Bool) (digits : Nat) (power : Int) : Option Number :=
  (Binary64.ofDecimal negative digits power).map float

def ofNat? (n : Nat) : Option Number := ofNumeral false n

end Number
end TwinGraph
