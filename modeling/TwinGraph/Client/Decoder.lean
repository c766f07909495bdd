import TwinGraph.Json.Basic
import TwinGraph.Text.Directory

/-! The forms that a caller can want results in. -/
namespace TwinGraph

abbrev Decoder (α : Type) := Json → Option α

namespace Decoder

def json : Decoder Json := some

def addTexts (texts : Directory Text) : List (Text × Json) → Option (Directory Text)
  | [] => some texts
  | (name, .string s) :: fields => addTexts (texts.insert name s) fields
  | _ => none

/-- An object all of whose fields hold strings, by name. -/
def texts : Decoder (Directory Text)
  | .object fields => addTexts Directory.empty fields
  | _ => none

end Decoder
end TwinGraph
