import TwinGraph.Text.Basic

/-! Identifiers of models, such as `dtmi:com:example:Room;1`: path segments behind colons, then a
version behind a semicolon. -/
namespace TwinGraph.ModelId

/-- A letter first, then letters, digits and underscores, but no underscore at the end. -/
def isSegment : Text → Bool
  | [] => false
  | c :: cs =>
    c.isAlpha && cs.all (fun d => d.isAlphanum || d == '_') && (c :: cs).getLast? != some '_'

def isVersionPart (most : Nat) (s : Text) : Bool :=
  s.all Char.isDigit && s.head?.any (· != '0') && decide (s.length ≤ most)

/-- A version of nine digits at most, perhaps with a minor one of six at most. -/
def isVersion (s : Text) : Bool :=
  match s.pieces (· == '.') with
  | [major] => isVersionPart 9 major
  | [major, minor] => isVersionPart 9 major && isVersionPart 6 minor
  | _ => false

def isValid (s : Text) : Bool :=
  match Text.after? "dtmi:" s with
  | none => false
  | some rest =>
    match rest.pieces (· == ';') with
    | [path, version] => (path.pieces (· == ':')).all isSegment && isVersion version
    | _ => false

end TwinGraph.ModelId
