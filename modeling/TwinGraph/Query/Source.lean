import TwinGraph.Query.Pattern

/-! The FROM clause. A source ends where the text does or in front of the word WHERE; what
cannot be read is reported by the kind of source it was meant to be. -/
namespace TwinGraph
open Query Scan

namespace Source

/-- A clause must end here: the text from WHERE on, or nothing. -/
def clauseEnd (s : Text) : Option Text :=
  let rest := s.trimLeft
  if rest.isEmpty || (afterKeyword "WHERE" rest).isSome then some rest else none

def scanAliasAfterGap (s : Text) : Option Text × Text :=
  optional (fun s => afterGap s >>= scanAlias) s

def scanCollection (kind : Collection) (s : Text) : Option (Source × Text) := do
  let (var, s) := scanAliasAfterGap s
  let s ← clauseEnd s
  some (.collection kind var, s)

/-- The pattern is all that stands in front of WHERE. -/
def scanMatch (s : Text) : Option (Source × Text) := do
  let s ← afterGap s
  let s ← afterKeyword "MATCH" s
  let s := s.trimLeft
  let (pattern, rest) := (findKeyword "WHERE" s).getD (s, [])
  let (patterns, left) ← scanPaths pattern.trimRight
  if left.trim.isEmpty then some (.paths patterns, rest) else none

def scanJoin (s : Text) : Option (Join × Text) := do
  let s ← afterGap s
  let s ← afterKeyword "JOIN" s
  let s ← afterGap s
  let (target, s) ← scanAlias s
  let s ← afterGap s
  let s ← afterKeyword "RELATED" s
  let s ← afterGap s
  let (source, s) ← scanAlias s
  let s ← Text.after? ['.'] s
  let (relationship, s) ← scanName s
  let (var, s) := scanAliasAfterGap s
  some (⟨target, source, relationship, var⟩, s)

def scanJoins (s : Text) : Option (Source × Text) := do
  let (var, s) := scanAliasAfterGap s
  let (first, s) ← scanJoin s
  let (more, s) := many scanJoin s
  let s ← clauseEnd s
  some (.joins var (first :: more), s)

def scan (s : Text) : Option (Source × Text) :=
  match afterKeyword Collection.relationships.keyword s with
  | some rest => scanCollection .relationships rest
  | none => do
    let rest ← afterKeyword Collection.twins.keyword s
    ((scanMatch rest).or (scanJoins rest)).or (scanCollection .twins rest)

def fault (s : Text) : QueryError :=
  let head := Text.trim (((findKeyword "WHERE" s).map (·.1)).getD s)
  match findKeyword "MATCH" head with
  | some (_, rest) => .malformedPattern (Text.trim (rest.drop 5))
  | none =>
    if (findKeyword "JOIN" head).isSome then .malformedJoin else .unsupportedSource head

def read (s : Text) : Except QueryError (Source × Text) :=
  match afterKeyword "FROM" s.trimLeft with
  | none => .error .missingSelect
  | some rest =>
    let rest := rest.trimLeft
    match scan rest with
    | some found => .ok found
    | none => .error (fault rest)

end Source
end TwinGraph
