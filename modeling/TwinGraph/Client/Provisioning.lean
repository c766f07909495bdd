import TwinGraph.Client.Session

/-! Making and dropping the graph. The name of the graph is a plain identifier, so it stands in
the statements as it is. -/
namespace TwinGraph

structure VertexKind where
  label : Text
  key : Text
  index : Text
  deriving DecidableEq, Repr

namespace VertexKind

def all : List VertexKind := [⟨"Twin", "$dtId", "twin"⟩, ⟨"Model", "@id", "model"⟩]

def statements (graph : Text) (kind : VertexKind) : List Text :=
  [Text.joined ["SELECT * FROM ag_catalog.create_vlabel('", graph, "', '", kind.label, "')"],
    Text.joined ["CREATE UNIQUE INDEX ", kind.index, "_id_idx ON ", graph, ".\"", kind.label,
      "\" (ag_catalog.agtype_access_operator(properties, '\"", kind.key, "\"'::agtype))"],
    Text.joined ["CREATE INDEX ", kind.index, "_gin_idx ON ", graph, ".\"", kind.label,
      "\" USING gin (properties)"]]

end VertexKind

namespace Client

def createGraphStatements (graph : Text) : List Text :=
  Text.joined ["SELECT * FROM ag_catalog.create_graph('", graph, "')"] ::
    VertexKind.all.flatMap (VertexKind.statements graph)

def dropGraphStatement (graph : Text) : Text :=
  Text.joined ["SELECT * FROM ag_catalog.drop_graph('", graph, "', true)"]

/-- Makes the graph step by step. What was made before a failure stays. -/
def createGraph (c : Client σ) : Action σ Unit :=
  (createGraphStatements c.graphName).forM fun statement => discard (c.executeSql statement)

def dropGraph (c : Client σ) : Action σ Unit :=
  discard (c.executeSql (dropGraphStatement c.graphName))

end Client
end TwinGraph
