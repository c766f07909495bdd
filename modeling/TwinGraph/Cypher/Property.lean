import TwinGraph.Text.Name

/-! Property paths. A key that is no identifier stands between backticks, and a backtick in it
is written twice. -/
namespace TwinGraph.Cypher

def quoteKey : Text → Text
  | [] => []
  | c :: cs => if c = '\x60' then '\x60' :: '\x60' :: quoteKey cs else c :: quoteKey cs

def propertyKey (key : Text) : Text :=
  if isIdentifier key then key else '\x60' :: quoteKey key ++ ['\x60']

def propertyPath (root : Text) (keys : List Text) : Text :=
  root ++ keys.flatMap fun key => '.' :: propertyKey key

end TwinGraph.Cypher
