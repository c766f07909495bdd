import TwinGraph.Yaml.Layout
import TwinGraph.Yaml.Property

/-! The tokens of a page. -/
namespace TwinGraph.Yaml

/-- A byte order mark, which may start any line and takes its first column. -/
def isOrderMark (g : Glyph) : Bool := g.char == '\ufeff' && g.column == 0

/-- Goes to the next token, over blanks, comments and breaks. In block style a key may begin on
each line, and tabs are no indentation where it may. -/
def toToken (flow : Bool) : (keyAllowed comment : Bool) → Page → Bool × Page
  | allowed, _, [] => (allowed, [])
  | allowed, comment, g :: page =>
    if isBreak g.char then toToken flow (!flow || allowed) false page
    else if comment then toToken flow allowed true page
    else if g.char == ' ' || (g.char == '\t' && (flow || !allowed)) || isOrderMark g then
      toToken flow allowed false page
    else if g.char == '#' then toToken flow allowed true page
    else (allowed, g :: page)

def startsPlain (flow : Bool) (c : Char) (page : Page) : Bool :=
  if c == '-' then !startsApart page
  else if c == '?' || c == ':' then !flow && !startsApart page
  else !(isGap c || isFlowMark c || ("#&*!|>'\"%@\x60".toList).contains c)

/-- Adds a scalar. A key may begin behind it only if its line has ended. -/
def Layout.pushScalar (style : Style) (text : Text) (broken : Bool) (l : Layout) : Layout :=
  (l.push (.scalar style text)).allowKey broken

def scanToken (l : Layout) (g : Glyph) (rest : Page) : Option (Layout × Page) :=
  let page : Page := g :: rest
  if g.column = 0 ∧ g.char = '%' then do
    let (token, rest) ← scanDirective rest
    return ((← l.closeAll).push token, rest)
  else if startsWithThree '-' page then do
    return ((← l.closeAll).push .documentStart, page.drop 3)
  else if startsWithThree '.' page then do
    return ((← l.closeAll).push .documentEnd, page.drop 3)
  else if g.char = '[' then do return (← l.openFlow g .openList, rest)
  else if g.char = '{' then do return (← l.openFlow g .openMapping, rest)
  else if g.char = ']' then do return (← l.closeFlow .closeList, rest)
  else if g.char = '}' then do return (← l.closeFlow .closeMapping, rest)
  else if g.char = ',' then do return (← l.nextItem, rest)
  else if g.char = '-' ∧ startsApart rest then do return (← l.entry g, rest)
  else if g.char = '?' ∧ (l.inFlow ∨ startsApart rest) then do return (← l.key g, rest)
  else if g.char = ':' ∧ (l.inFlow ∨ startsApart rest) then do return (← l.value g, rest)
  else if g.char = '*' then do
    let (name, rest) ← scanAnchor rest
    return (((← l.saveKey g).push (.alias name)).allowKey false, rest)
  else if g.char = '&' then do
    let (name, rest) ← scanAnchor rest
    return (((← l.saveKey g).push (.anchor name)).allowKey false, rest)
  else if g.char = '!' then do
    let (token, rest) ← scanTag l.inFlow page
    return (((← l.saveKey g).push token).allowKey false, rest)
  else if (g.char = '|' ∨ g.char = '>') ∧ !l.inFlow then do
    let (text, rest) ← scanBlock (g.char == '>') l.indent rest
    let style := if g.char = '>' then Style.folded else .literal
    return ((← l.dropKey).pushScalar style text true, rest)
  else if g.char = '\'' ∨ g.char = '"' then do
    let (text, rest) ← scanQuoted g.char (rest.length + 1) rest
    return ((← l.saveKey g).pushScalar .quoted text false, rest)
  else if startsPlain l.inFlow g.char rest then do
    let (text, broken, rest) ← scanPlain l.inFlow l.indent page
    return ((← l.saveKey g).pushScalar .plain text broken, rest)
  else none

/-- Every token takes a character at least, so the length of the page bounds the calls. -/
def scanTokens : (bound : Nat) → Layout → Page → Option (List Token)
  | 0, _, _ => none
  | bound + 1, l, page =>
    let (allowed, page) := toToken l.inFlow l.keyAllowed false page
    let l := l.allowKey allowed
    match page with
    | [] => do return (← l.closeAll).tokens.reverse
    | g :: rest => do
      let l := (← l.refresh g).closeFrom (g.column + 1)
      let (l, page) ← scanToken l g rest
      scanTokens bound l page

def tokens? (s : Text) : Option (List Token) := do
  let page ← Page.ofText? s
  scanTokens (page.length + 1) .start page

end TwinGraph.Yaml
