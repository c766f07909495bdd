import TwinGraph.Store.Row

/-! Graph stores. A store is given by what it answers to statements and how its state goes on;
a statement of the query language is asked about a graph, SQL about none. -/
namespace TwinGraph

/-- Rows as they come, where an error can take the place of a row. Whoever reads them stops at
the first error. -/
abbrev Results := List (Except StoreError Row)

abbrev StoreAction (σ α : Type) := ExceptT StoreError (StateM σ) α

structure Store (σ : Type) where
  query : (graph statement : Text) → StoreAction σ Results
  execute : (graph statement : Text) → StoreAction σ Nat
  executeSql : (statement : Text) → StoreAction σ Nat
  /-- How often in a row the store can tell documents of models that were not known before. -/
  rounds : σ → Nat

namespace Results

def rows (results : Results) : Except StoreError (List Row) := results.mapM id

/-- The first row, if there is one; what follows it does not matter. -/
def first? : Results → Except StoreError (Option Row)
  | [] => .ok none
  | item :: _ => item.map some

/-- The property maps of the vertices that the rows start with. Other rows are passed over. -/
def vertexDocuments (results : Results) : Except StoreError (List Json) := do
  return (← results.rows).filterMap fun row => row.vertexProperties?.map Json.object

end Results
end TwinGraph
