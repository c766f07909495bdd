import TwinGraph.Client.Session
import TwinGraph.Query.Cypher

/-! Queries of the caller: twin queries, which become Cypher, and statements of the store's own
language. -/
namespace TwinGraph.Client

def queryStatement (graph query : Text) : Except QueryError Statement :=
  if Query.isTwinQuery query then do return .native (← Query.toCypher graph query)
  else .ok (.native query)

/-- Runs a query. Every row is one record by the names of its columns. -/
def runQuery (c : Client σ) (decoder : Decoder α) (query : Text) (cancelAfter : Option Nat) :
    Action σ (List (Except ClientError α)) := do
  let statement ← (queryStatement c.graphName query).mapError ClientError.invalidQuery
  let results ← c.query statement
  return decodeRows (fun row => decode decoder row.record) cancelAfter results

end TwinGraph.Client
