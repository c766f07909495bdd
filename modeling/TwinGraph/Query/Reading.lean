import TwinGraph.Query.Source

/-! Reading a whole twin query: `SELECT [TOP(n)] projections FROM source [WHERE conditions]`.
The clauses are read in this order, and the first fault decides the error. -/
namespace TwinGraph
open Query Scan

namespace Query

def maxTop : Nat := 0xffffffffffffffff

def scanTop : Scanner Text := fun s => do
  let s ← afterKeyword "TOP" s
  let s ← afterSpaced '(' s
  let (digits, s) ← scanDigits s
  let s ← afterSpaced ')' s
  some (digits, s)

def readTop (s : Text) : Except QueryError (Option Nat × Text) :=
  match scanTop s with
  | none => .ok (none, s)
  | some (digits, rest) =>
    if Text.natValue digits ≤ maxTop then .ok (some (Text.natValue digits), rest)
    else .error (.unexpectedInput digits)

def readSelect (s : Text) : Except QueryError (Option Nat × Text × Text) :=
  match afterKeyword "SELECT" (skipGaps s) with
  | none => .error .missingSelect
  | some s => do
    let (top, s) ← readTop (skipGaps s)
    match findKeyword "FROM" s with
    | none => .error .missingSelect
    | some (projections, rest) =>
      if projections.trim.isEmpty then .error .missingSelect
      else .ok (top, projections.trim, rest)

/-- The conditions behind WHERE; no text means no conditions. -/
def readWhere (s : Text) : Except QueryError (Option Text) :=
  if s.trim.isEmpty then .ok none
  else
    match afterKeyword "WHERE" s.trim with
    | none => .error (.unexpectedInput s.trim)
    | some rest => if rest.trim.isEmpty then .error .emptyWhere else .ok (some rest.trim)

def read (s : Text) : Except QueryError Query := do
  let (top, projections, s) ← readSelect s
  let (source, s) ← Source.read s
  let conditions ← readWhere s
  return ⟨top, projections, source, conditions⟩

/-- Twin queries start with SELECT; any other text is taken for the store's own language. -/
def isTwinQuery (s : Text) : Bool := (afterKeyword "SELECT" s.trimLeft).isSome

end Query
end TwinGraph
