import TwinGraph.Query.Error
import TwinGraph.Query.Scan

/-! Path patterns: how they are read, and how they are written for a store that has no label
alternation. As soon as one edge of a list offers several labels, every edge with an alias
is written without labels, and a predicate on its alias says which labels it may have. -/
namespace TwinGraph
open Query Scan

/-- `: name`, with gaps around the colon -/
def NodePattern.scanLabel : Scanner Text := fun s => afterSpaced ':' s >>= scanName

def NodePattern.scan : Scanner NodePattern := fun s => do
  let s ← Text.after? ['('] s
  let (var, s) := optional scanName (skipGaps s)
  let (label, s) := optional scanLabel s
  let s ← Text.after? [')'] (skipGaps s)
  some (⟨var, label⟩, s)

/-- A star, then perhaps a number, then perhaps two dots with or without a number. -/
def EdgeDetail.scanHops : Scanner Text := fun s => do
  let s ← Text.after? ['*'] s
  let least := s.takeWhile Char.isDigit
  let s := s.dropWhile Char.isDigit
  match Text.after? ['.', '.'] s with
  | none => some ('*' :: least, s)
  | some s =>
    some ('*' :: least ++ '.' :: '.' :: s.takeWhile Char.isDigit, s.dropWhile Char.isDigit)

/-- `: a | b | c`, with gaps around the marks -/
def EdgeDetail.scanLabels : Scanner (List Text) := fun s =>
  afterSpaced ':' s >>= listOf (afterSpaced '|') scanName

def EdgeDetail.scan : Scanner EdgeDetail := fun s => do
  let s ← Text.after? ['['] s
  let (var, s) := optional scanName (skipGaps s)
  let (labels, s) := optional scanLabels s
  let (hops, s) := optional scanHops s
  let s ← Text.after? [']'] (skipGaps s)
  some (⟨var, labels.getD [], hops⟩, s)

namespace EdgePattern

def scanBracketed : Scanner EdgePattern := fun s =>
  match Text.after? ['<', '-'] s with
  | some s => do
    let (detail, s) ← EdgeDetail.scan s
    let s ← Text.after? ['-'] s
    some (⟨.incoming, some detail⟩, s)
  | none => do
    let s ← Text.after? ['-'] s
    let (detail, s) ← EdgeDetail.scan s
    match Text.after? ['-', '>'] s with
    | some s => some (⟨.outgoing, some detail⟩, s)
    | none => do
      let s ← Text.after? ['-'] s
      some (⟨.either, some detail⟩, s)

def scanBare : Scanner EdgePattern
  | '-' :: '-' :: '>' :: s => some (⟨.outgoing, none⟩, s)
  | '<' :: '-' :: '-' :: s => some (⟨.incoming, none⟩, s)
  | '-' :: '-' :: s => some (⟨.either, none⟩, s)
  | _ => none

def scan : Scanner EdgePattern := fun s => (scanBracketed s).or (scanBare s)

end EdgePattern

namespace PathPattern

def scanStep : Scanner (EdgePattern × NodePattern) := fun s => do
  let (edge, s) ← EdgePattern.scan (skipGaps s)
  let (node, s) ← NodePattern.scan (skipGaps s)
  some ((edge, node), s)

def scan : Scanner PathPattern := fun s => do
  let (start, s) ← NodePattern.scan s
  let (chain, s) := many scanStep s
  some (⟨start, chain⟩, s)

def edges (p : PathPattern) : List EdgePattern := p.chain.map (·.1)

end PathPattern

def scanPaths : Scanner (List PathPattern) := listOf (afterSpaced ',') PathPattern.scan

def twinLabel : Text := "Twin"

def NodePattern.render : NodePattern → Text
  | ⟨some var, none⟩ => Text.joined ["(", var, ":", twinLabel, ")"]
  | ⟨var, some label⟩ => Text.joined ["(", var.getD [], ":", label, ")"]
  | ⟨none, none⟩ => "()"

def Direction.arrow : Direction → Text × Text
  | .outgoing => ("-", "->")
  | .incoming => ("<-", "-")
  | .either => ("-", "-")

/-- The labels go where the alias can carry them as a predicate. -/
def EdgeDetail.withoutLabels (d : EdgeDetail) : EdgeDetail :=
  if d.var.isSome then { d with labels := [] } else d

def EdgeDetail.render (d : EdgeDetail) : Text :=
  Text.joined [d.var.getD [],
    if d.labels.isEmpty then [] else ':' :: Text.separated "|" d.labels,
    d.hops.getD []]

def EdgePattern.withoutLabels (e : EdgePattern) : EdgePattern :=
  { e with detail := e.detail.map EdgeDetail.withoutLabels }

def EdgePattern.render (e : EdgePattern) : Text :=
  let (left, right) := e.direction.arrow
  match e.detail with
  | none => left ++ right
  | some detail => Text.joined [left, "[", detail.render, "]", right]

def PathPattern.withoutLabels (p : PathPattern) : PathPattern :=
  { p with chain := p.chain.map fun (edge, node) => (edge.withoutLabels, node) }

def PathPattern.render (p : PathPattern) : Text :=
  p.start.render ++ Text.joined (p.chain.map fun (edge, node) => edge.render ++ node.render)

/-- One of the labels holds for the alias; absent where there is no alias or no label. -/
def EdgePattern.labelPredicate (e : EdgePattern) : Option Text := do
  let detail ← e.detail
  let var ← detail.var
  if detail.labels.isEmpty then none
  else
    some (Text.joined ["(",
      Text.separated " OR " (detail.labels.map fun label =>
        Text.joined ["label(", var, ") = '", label, "'"]),
      ")"])

def EdgePattern.isAlternation (e : EdgePattern) : Bool := e.detail.any EdgeDetail.isAlternation

def EdgePattern.hasAlias (e : EdgePattern) : Bool := e.detail.any (·.var.isSome)

structure MatchClause where
  pattern : Text
  predicates : List Text
  deriving DecidableEq, Repr

/-- Fails at the first alternation whose edge has no alias to put a predicate on. -/
def MatchClause.ofPaths (paths : List PathPattern) : Except QueryError MatchClause :=
  let edges := paths.flatMap PathPattern.edges
  match edges.find? fun e => e.isAlternation && !e.hasAlias with
  | some e =>
    .error (.alternationWithoutAlias (Text.separated "|" ((e.detail.map (·.labels)).getD [])))
  | none =>
    if edges.any EdgePattern.isAlternation then
      .ok ⟨Text.separated "," (paths.map (·.withoutLabels.render)),
        edges.filterMap EdgePattern.labelPredicate⟩
    else
      .ok ⟨Text.separated "," (paths.map PathPattern.render), []⟩

end TwinGraph
