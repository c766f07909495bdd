import TwinGraph.Number.Binary64

/-! The fewest digits that read back. For each number of digits the two neighbours of the
number on that decimal grid are tried; of two that read back the nearer one is taken, and of
two equally near ones the even one. -/
namespace TwinGraph

structure Decimal where
  digits : Nat
  power : Int
  deriving DecidableEq, Repr

namespace Binary64

def leadingPower (num den : Nat) : Int :=
  if den ≤ num then ((Text.ofNat (num / den)).length : Int) - 1
  else
    let places := (Text.ofNat (den / num)).length
    if den ≤ num * Nat.pow 10 (places - 1) then -((places : Int) - 1) else -(places : Int)

def readsAs (x : Binary64) (d : Decimal) : Bool := ofDecimal x.negative d.digits d.power == some x

/-- The nearer neighbour on the grid of that many digits that reads back. The upper one may be
the next power of ten. -/
def onGrid (x : Binary64) (count : Nat) : Option Decimal :=
  let (num, den) := x.toQuotient
  let power := leadingPower num den - ((count : Int) - 1)
  let (n, d) :=
    if 0 ≤ power then (num, den * Nat.pow 10 power.toNat)
    else (num * Nat.pow 10 (-power).toNat, den)
  let below : Decimal := ⟨n / d, power⟩
  let above : Decimal := 
    if n / d + 1 = Nat.pow 10 count then ⟨1, power + count⟩ else ⟨n / d + 1, power⟩
  let (near, far) :=
    if roundQuotient n d = n / d then (below, above) else (above, below)
  if x.readsAs near then some near else if x.readsAs far then some far else none

def exactDecimal (x : Binary64) : Decimal :=
  if 0 ≤ x.exponent then ⟨x.mantissa * Nat.pow 2 x.exponent.toNat, 0⟩
  else ⟨x.mantissa * Nat.pow 5 (-x.exponent).toNat, x.exponent⟩

/-- Seventeen digits always suffice; the exact decimal stands for the case that is not met. -/
def shortest (x : Binary64) : Decimal :=
  if x.mantissa = 0 then ⟨0, 0⟩
  else (((List.range 17).map (· + 1)).findSome? x.onGrid).getD x.exactDecimal

end Binary64

def Decimal.fraction (digits : Text) : Text := if digits.isEmpty then [] else '.' :: digits

/-- Positional from `10 ^ -5` up to `10 ^ 16`, always with a digit behind the point; beyond
that one digit, the others behind a point, and the exponent with its sign. -/
def Decimal.render (d : Decimal) : Text :=
  let digits := Text.ofNat d.digits
  let leading : Int := digits.length - 1 + d.power
  if -5 ≤ leading ∧ leading < 16 then
    if 0 ≤ d.power then
      digits ++ List.replicate d.power.toNat '0' ++ ['.', '0']
    else if 0 ≤ leading then
      digits.take (leading.toNat + 1) ++ '.' :: digits.drop (leading.toNat + 1)
    else
      '0' :: '.' :: List.replicate ((-leading).toNat - 1) '0' ++ digits
  else
    digits.take 1 ++ Decimal.fraction (digits.drop 1) ++ 'e' ::
      (if 0 ≤ leading then '+' else '-') :: Text.ofNat leading.natAbs

def Binary64.render (x : Binary64) : Text :=
  (if x.negative then ['-'] else []) ++ x.shortest.render

end TwinGraph
