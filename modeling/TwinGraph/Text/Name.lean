import TwinGraph.Text.Basic

/-! Plain identifiers: a letter A to Z or an underscore, then such characters and digits. They
stand in statements without quotes. -/
namespace TwinGraph

def isNameStart (c : Char) : Bool := c.isAlpha || c == '_'

def isNameChar (c : Char) : Bool := c.isAlphanum || c == '_'

def isIdentifier : Text → Bool
  | [] => false
  | c :: cs => isNameStart c && cs.all isNameChar

end TwinGraph
