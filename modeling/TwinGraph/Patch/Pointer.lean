import TwinGraph.Text.Basic

/-! Pointers into a document: segments behind slashes. In a segment `~1` stands for a slash and
`~0` for a tilde. -/
namespace TwinGraph

inductive PointerFault where
  | relative (pointer : Text)
  | emptySegment (pointer : Text)
  deriving DecidableEq, Repr

def PointerFault.message : PointerFault → Text
  | relative pointer => Text.joined ["Patch path '", pointer, "' must start with '/'"]
  | emptySegment pointer => Text.joined ["Patch path '", pointer, "' has an empty segment"]

namespace Pointer

/-- Puts a character for every tilde that the digit follows. -/
def replaceMark (digit plain : Char) : Text → Text
  | [] => []
  | '~' :: c :: cs =>
    if c = digit then plain :: replaceMark digit plain cs else '~' :: replaceMark digit plain (c :: cs)
  | c :: cs => c :: replaceMark digit plain cs

/-- The slashes come first, so that a tilde made last is not read again. -/
def decodeSegment (s : Text) : Text := replaceMark '0' '~' (replaceMark '1' '/' s)

def segments (pointer : Text) : Except PointerFault (List Text) :=
  match pointer with
  | '/' :: rest =>
    let pieces := Text.pieces (· == '/') rest
    if pieces.any List.isEmpty then .error (.emptySegment pointer)
    else .ok (pieces.map decodeSegment)
  | _ => .error (.relative pointer)

end Pointer
end TwinGraph
