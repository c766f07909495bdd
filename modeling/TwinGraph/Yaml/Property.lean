import TwinGraph.Yaml.Token
import TwinGraph.Yaml.Block

/-! Anchors and tags of nodes, and the directives in front of a document. -/
namespace TwinGraph.Yaml

def isNameChar (c : Char) : Bool := c.isAlphanum || c == '_' || c == '-'

def scanAnchor (page : Page) : Option (Text × Page) :=
  let (name, rest) := spanOf isNameChar page
  if name.isEmpty then none
  else if startsApart rest || (next? rest).any ("?:,]\x7d%@\x60".toList).contains then
    some (textOf name, rest)
  else none

def isTagChar (bracketed : Bool) (c : Char) : Bool :=
  isNameChar c || (";/?:@&=+$.%!~*'()".toList).contains c ||
    (bracketed && (c == ',' || c == '[' || c == ']'))

def scanByte : Page → Option (Nat × Page)
  | percent :: high :: low :: rest => do
    if percent.char = '%' then return ((← hexValue high.char) * 16 + (← hexValue low.char), rest)
    else none
  | _ => none

/-- That many more bytes of a character, each of which adds six bits to its code. -/
def scanTail : (count : Nat) → (code : Nat) → Page → Option (Nat × Page)
  | 0, code, page => some (code, page)
  | count + 1, code, page => do
    let (byte, rest) ← scanByte page
    if 0x80 ≤ byte ∧ byte < 0xc0 then scanTail count (code * 64 + (byte - 0x80)) rest else none

def scanEncoded (page : Page) : Option (Char × Page) := do
  let (byte, rest) ← scanByte page
  let (code, rest) ←
    if byte < 0x80 then some (byte, rest)
    else if byte < 0xc0 then none
    else if byte < 0xe0 then scanTail 1 (byte - 0xc0) rest
    else if byte < 0xf0 then scanTail 2 (byte - 0xe0) rest
    else if byte < 0xf8 then scanTail 3 (byte - 0xf0) rest
    else none
  return (Char.ofNat code, rest)

def scanTagText (bracketed : Bool) : (bound : Nat) → Page → Option (Text × Page)
  | 0, _ => none
  | bound + 1, page =>
    match page with
    | [] => some ([], [])
    | g :: rest =>
      if isTagChar bracketed g.char then do
        let (c, rest) ← if g.char = '%' then scanEncoded page else some (g.char, rest)
        let (text, rest) ← scanTagText bracketed bound rest
        return (c :: text, rest)
      else some ([], page)

/-- A handle: an exclamation mark alone, or a name between two of them. -/
def scanHandle (page : Page) : Option (Text × Page) :=
  match page with
  | [] => none
  | mark :: rest =>
    if mark.char = '!' then
      let (name, rest') := spanOf isNameChar rest
      match rest' with
      | close :: after =>
        if close.char = '!' then some ('!' :: textOf name ++ ['!'], after) else some (['!'], rest)
      | [] => some (['!'], rest)
    else none

def scanFullTag (page : Page) : Option (Token × Page) := do
  let (text, rest) ← scanTagText true (page.length + 1) page
  if text.isEmpty ∨ next? rest ≠ some '>' then none
  return (.tag [] text, rest.tail)

/-- A tag as its handle and what follows it. The exclamation mark alone is a tag itself. -/
def scanShortTag (page : Page) : Option (Token × Page) := do
  let (handle, rest) ← scanHandle page
  let (suffix, rest) ← scanTagText false (rest.length + 1) rest
  if !suffix.isEmpty then return (.tag handle suffix, rest)
  else if handle = ['!'] then return (.tag [] handle, rest)
  else none

def scanTag (flow : Bool) (page : Page) : Option (Token × Page) := do
  let (token, rest) ←
    if next? page.tail = some '<' then scanFullTag (page.drop 2) else scanShortTag page
  if startsApart rest ∨ (flow ∧ next? rest = some ',') then return (token, rest) else none

def scanVersionPart (page : Page) : Option (Nat × Page) :=
  let (digits, rest) := spanOf Char.isDigit page
  if digits.isEmpty ∨ 9 < digits.length then none else some (Text.natValue (textOf digits), rest)

def skipBlanks (page : Page) : Page := (spanOf isBlank page).2

def scanDirective (page : Page) : Option (Token × Page) := do
  let (name, rest) := spanOf isNameChar page
  if !startsApart rest then none
  let rest := skipBlanks rest
  if textOf name = "YAML".toList then
    let (major, rest) ← scanVersionPart rest
    if next? rest ≠ some '.' then none
    let (minor, rest) ← scanVersionPart rest.tail
    return (.version major minor, ← skipLineEnd rest)
  else if textOf name = "TAG".toList then
    let (handle, rest) ← scanHandle rest
    if !(next? rest).any isBlank then none
    let rest := skipBlanks rest
    let (replacement, rest) ← scanTagText true (rest.length + 1) rest
    if replacement.isEmpty ∨ !startsApart rest then none
    return (.tagHandle handle replacement, ← skipLineEnd rest)
  else none

end TwinGraph.Yaml
