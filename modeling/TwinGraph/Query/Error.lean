import TwinGraph.Query.Syntax

/-! The reasons for which a twin query has no Cypher text, and their wording. -/
namespace TwinGraph

inductive QueryError where
  | missingSelect
  | unsupportedSource (source : Text)
  | missingAlias (collection : Collection)
  | malformedJoin
  | malformedPattern (pattern : Text)
  | alternationWithoutAlias (labels : Text)
  | emptyWhere
  | unbalancedParentheses (expression : Text)
  | unexpectedInput (input : Text)
  deriving DecidableEq, Repr

namespace QueryError

def reason : QueryError → Text
  | missingSelect => "missing SELECT ... FROM clause"
  | unsupportedSource source => Text.joined ["unsupported FROM source '", source, "'"]
  | missingAlias collection =>
    Text.joined ["an alias is required for 'FROM ", collection.keyword,
      "' unless the projection is * or COUNT()"]
  | malformedJoin =>
    "JOIN clause must be 'JOIN <target> RELATED <source>.<relationship> [alias]'"
  | malformedPattern pattern => Text.joined ["malformed MATCH pattern near '", pattern, "'"]
  | alternationWithoutAlias labels =>
    Text.joined ["relationship alternation '", labels, "' requires an alias"]
  | emptyWhere => "WHERE clause is empty"
  | unbalancedParentheses expression =>
    Text.joined ["unbalanced parentheses in '", expression, "'"]
  | unexpectedInput input => Text.joined ["unexpected input '", input, "'"]

def message (e : QueryError) : Text := Text.joined ["Invalid query format: ", e.reason]

end QueryError
end TwinGraph
