import TwinGraph.Text.Basic

/-! What a twin query says: how many results, which projections, which part of the graph,
and under which conditions. Projections and conditions stay texts here; their own structure
is in `Query.Expression`. -/
namespace TwinGraph

structure NodePattern where
  var : Option Text
  label : Option Text
  deriving DecidableEq, Repr

inductive Direction where
  | outgoing
  | incoming
  | either
  deriving DecidableEq, Repr

/-- What stands between the brackets of an edge. More than one label is an alternation;
the hop suffix, such as `*1..3`, is kept as it is written. -/
structure EdgeDetail where
  var : Option Text
  labels : List Text
  hops : Option Text
  deriving DecidableEq, Repr

/-- An edge between two nodes; the bare arrows `-->`, `<--` and `--` have no detail. -/
structure EdgePattern where
  direction : Direction
  detail : Option EdgeDetail
  deriving DecidableEq, Repr

structure PathPattern where
  start : NodePattern
  chain : List (EdgePattern × NodePattern)
  deriving DecidableEq, Repr

/-- `JOIN target RELATED source.relationship alias` -/
structure Join where
  target : Text
  source : Text
  relationship : Text
  var : Option Text
  deriving DecidableEq, Repr

inductive Collection where
  | twins
  | relationships
  deriving DecidableEq, Repr

inductive Source where
  | collection (kind : Collection) (var : Option Text)
  | joins (var : Option Text) (links : List Join)
  | paths (patterns : List PathPattern)
  deriving DecidableEq, Repr

structure Query where
  top : Option Nat
  projections : Text
  source : Source
  conditions : Option Text
  deriving DecidableEq, Repr

def Query.isWildcard (q : Query) : Bool := q.projections == ['*']

def EdgeDetail.isAlternation (d : EdgeDetail) : Bool := 1 < d.labels.length

def Collection.keyword : Collection → Text
  | .twins => "DIGITALTWINS"
  | .relationships => "RELATIONSHIPS"

def Collection.defaultAlias : Collection → Text
  | .twins => "T"
  | .relationships => "R"

end TwinGraph
