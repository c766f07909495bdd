import TwinGraph.Text.Basic

/-! White space: the characters with the Unicode property White_Space, and what is done
with them, trimming a text and cutting it into words. -/
namespace TwinGraph

/-- The property White_Space, 25 characters. -/
def isBlank (c : Char) : Bool :=
  let n := c.toNat
  (0x09 ≤ n && n ≤ 0x0d) || n == 0x20 || n == 0x85 || n == 0xa0 || n == 0x1680 ||
    (0x2000 ≤ n && n ≤ 0x200a) || n == 0x2028 || n == 0x2029 || n == 0x202f || n == 0x205f ||
    n == 0x3000

namespace Text

def trimLeft (s : Text) : Text := s.dropWhile isBlank

def trimRight (s : Text) : Text := (s.reverse.dropWhile isBlank).reverse

def trim (s : Text) : Text := s.trimLeft.trimRight

def words (s : Text) : List Text := (s.pieces isBlank).filter (!·.isEmpty)

/-- Every run of blanks becomes one space, and none is left at either end. -/
def respaced (s : Text) : Text := separated " " s.words

end Text
end TwinGraph
