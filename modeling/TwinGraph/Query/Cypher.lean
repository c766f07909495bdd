import TwinGraph.Query.Reading
import TwinGraph.Query.Dialect

/-! The Cypher text of a twin query. It depends on the words of the query and the name of the
graph only, and the first fault of the query in the order projections, source, conditions
decides the error. -/
namespace TwinGraph
open Query

namespace Query

def readItems (s : Text) : Except QueryError (List Item) :=
  match Item.ofText? s with
  | some items => .ok items
  | none => .error (.unbalancedParentheses s)

def countAll : Text := "COUNT(*)"

/-- The projections; a count among them is all that is returned. -/
def projectionText (graph s : Text) : Except QueryError Text := do
  let items ← readItems s
  if Item.anyCount items then return countAll
  return Item.renderAll (Item.bracketAll (Item.bindModelTestAll graph none (Item.nativeAll items)))

/-- The conditions. With an alias that the query leaves out, property names are taken to be
its own. -/
def conditionText (graph : Text) (var : Option Text) (s : Text) :
    Except QueryError Text := do
  let items ← readItems s
  let items := match var with
    | some var => Item.qualifyAll var items
    | none => items
  return Item.renderAll (Item.bracketAll (Item.bindModelTestAll graph var (Item.nativeAll items)))

def collectionPattern (kind : Collection) (var : Text) : Text :=
  match kind with
  | .twins => Text.joined ["(", var, ":", twinLabel, ")"]
  | .relationships => Text.joined ["(:", twinLabel, ")-[", var, "]->(:", twinLabel, ")"]

def Join.pattern (j : Join) : Text :=
  Text.joined ["(", j.source, ":", twinLabel, ")-[", j.var.getD [], ":", j.relationship, "]->(",
    j.target, ":", twinLabel, ")"]

structure Scope where
  clause : MatchClause
  implicitAlias : Option Text
  deriving DecidableEq, Repr

/-- A collection without an alias gets its default one, where that is allowed. -/
def Scope.ofSource (defaults : Bool) : Source → Except QueryError Scope
  | .collection kind (some var) => .ok ⟨⟨collectionPattern kind var, []⟩, none⟩
  | .collection kind none =>
    if defaults then
      .ok ⟨⟨collectionPattern kind kind.defaultAlias, []⟩, some kind.defaultAlias⟩
    else .error (.missingAlias kind)
  | .paths patterns => do return ⟨← MatchClause.ofPaths patterns, none⟩
  | .joins _ links => .ok ⟨⟨Text.separated "," (links.map Join.pattern), []⟩, none⟩

def whereText (predicates : List Text) : Option Text → Option Text
  | none => if predicates.isEmpty then none else some (Text.separated " AND " predicates)
  | some conditions =>
    if predicates.isEmpty then some conditions
    else some (Text.joined [Text.separated " AND " predicates, " AND (", conditions, ")"])

def conditionText? (graph : Text) (var : Option Text) :
    Option Text → Except QueryError (Option Text)
  | none => .ok none
  | some s => do return some (← conditionText graph var s)

def render (pattern : Text) (conditions : Option Text) (projections : Text) (top : Option Nat) :
    Text :=
  Text.joined ["MATCH ", pattern,
    match conditions with
    | some conditions => Text.joined [" WHERE ", conditions]
    | none => [],
    " RETURN ", projections,
    match top with
    | some n => Text.joined [" LIMIT ", Text.ofNat n]
    | none => []]

/-- Without an alias a collection can be asked for everything or for a count. -/
def allowsDefaults (q : Query) (projections : Text) : Bool :=
  q.isWildcard || projections == countAll

def cypher (graph : Text) (q : Query) : Except QueryError Text := do
  let projections ← projectionText graph q.projections
  let scope ← Scope.ofSource (q.allowsDefaults projections) q.source
  let conditions ← conditionText? graph scope.implicitAlias q.conditions
  return render scope.clause.pattern (whereText scope.clause.predicates conditions) projections q.top

def toCypher (graph s : Text) : Except QueryError Text := do
  cypher graph (← read s.respaced)

end Query
end TwinGraph
