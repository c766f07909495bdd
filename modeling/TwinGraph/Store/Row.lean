import TwinGraph.Agtype.Decoding

/-! Result rows: named cells in the order of the statement. Names may repeat; looking one up
finds the first, a record of the row holds the last. -/
namespace TwinGraph

abbrev Row := List (Text × Cell)

namespace Row

/-- Decodes the columns one after another; the first that fails decides. -/
def ofTexts : List (Text × Text) → Except StoreError Row
  | [] => .ok []
  | (name, text) :: columns => do return (name, ← Cell.ofText text) :: (← ofTexts columns)

def get? (name : Text) (row : Row) : Option Cell := Fields.find? name row

def first? (row : Row) : Option Cell := (row.map (·.2)).head?

def values (row : Row) : List Cell := row.map (·.2)

def record (row : Row) : Json :=
  .object (Fields.ofList (row.map fun (name, cell) => (name, cell.toJson)))

def vertexProperties? (row : Row) : Option (Fields Json) :=
  (row.first? >>= Cell.vertex?).map (·.properties)

end Row
end TwinGraph
