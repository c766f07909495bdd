import TwinGraph.Yaml.Scanning

/-! The nodes of a document. A scalar stands also where it is repeated by an alias; of a collection
that is repeated only its name is known there. -/
namespace TwinGraph.Yaml

structure Scalar where
  style : Style
  tag : Option Text
  text : Text
  deriving DecidableEq, Repr

inductive Node where
  | scalar (s : Scalar)
  | list (items : List Node)
  | mapping (entries : List (Node × Node))
  | again (anchor : Text)
  deriving Repr

namespace Node

def empty : Node := .scalar ⟨.plain, none, []⟩

def scalar? : Node → Option Scalar
  | scalar s => some s
  | _ => none

end Node

abbrev Handles := List (Text × Text)

structure Rest where
  tokens : List Token
  anchors : List (Text × Node)

namespace Rest

def next? (r : Rest) : Option Token := r.tokens.head?

def skip (r : Rest) : Rest := { r with tokens := r.tokens.tail }

def name (anchor : Option Text) (node : Node) (r : Rest) : Rest :=
  { r with anchors := anchor.elim r.anchors fun anchor => (anchor, node) :: r.anchors }

def after? (token : Token) (r : Rest) : Option Rest :=
  if r.next? = some token then some r.skip else none

def startsWith (tokens : List Token) (r : Rest) : Bool := r.next?.any tokens.contains

end Rest

def anchor? (r : Rest) : Option Text × Rest :=
  match r.next? with
  | some (.anchor name) => (some name, r.skip)
  | _ => (none, r)

def tag? (handles : Handles) (r : Rest) : Option (Option Text × Rest) :=
  match r.next? with
  | some (.tag handle suffix) =>
    if handle.isEmpty then some (some suffix, r.skip)
    else (handles.lookup handle).map fun replacement => (some (replacement ++ suffix), r.skip)
  | _ => some (none, r)

def properties (handles : Handles) (r : Rest) : Option (Option Text × Option Text × Rest) := do
  let (anchor, r) := anchor? r
  let (tag, r) ← tag? handles r
  if anchor.isSome then return (anchor, tag, r)
  let (anchor, r) := anchor? r
  return (anchor, tag, r)

mutual

/-- A node. In block style it may be a collection of that style, and as part of a mapping also a
list whose dashes stand below the key. -/
def readNode (handles : Handles) (block below : Bool) : (bound : Nat) → Rest → Option (Node × Rest)
  | 0, _ => none
  | bound + 1, r =>
    match r.next? with
    | some (.alias name) => do return (← r.anchors.lookup name, r.skip)
    | _ => do
      let (anchor, tag, r) ← properties handles r
      let opened := r.name anchor (.again (anchor.getD []))
      match r.next? with
      | some (.scalar style text) =>
        let node := Node.scalar ⟨style, tag, text⟩
        return (node, r.skip.name anchor node)
      | some .openList => do
        let (items, r) ← readItems handles true bound opened.skip
        return (.list items, r)
      | some .openMapping => do
        let (entries, r) ← readEntries handles true bound opened.skip
        return (.mapping entries, r)
      | next =>
        if below ∧ next = some .entry then do
          let (items, r) ← readBlockItems handles true bound opened
          return (.list items, r)
        else if block ∧ next = some .blockList then do
          let (items, r) ← readBlockItems handles false bound opened.skip
          return (.list items, r)
        else if block ∧ next = some .blockMapping then do
          let (entries, r) ← readBlockEntries handles bound opened.skip
          return (.mapping entries, r)
        else if anchor.isSome ∨ tag.isSome then
          let node := Node.scalar ⟨.plain, tag, []⟩
          return (node, r.name anchor node)
        else none

/-- The items of a list in block style. One whose dashes stand below a key ends by itself. -/
def readBlockItems (handles : Handles) (below : Bool) :
    (bound : Nat) → Rest → Option (List Node × Rest)
  | 0, _ => none
  | bound + 1, r =>
    match r.after? .entry with
    | some r => do
      let ends := if below then [Token.entry, .key, .value, .blockEnd] else [.entry, .blockEnd]
      let (item, r) ←
        if r.startsWith ends then some (Node.empty, r) else readNode handles true false bound r
      let (items, r) ← readBlockItems handles below bound r
      return (item :: items, r)
    | none => if below then some ([], r) else (r.after? .blockEnd).map ([], ·)

def readBlockEntries (handles : Handles) :
    (bound : Nat) → Rest → Option (List (Node × Node) × Rest)
  | 0, _ => none
  | bound + 1, r =>
    match r.after? .key with
    | some r => do
      let ends := [Token.key, .value, .blockEnd]
      let (key, r) ←
        if r.startsWith ends then some (Node.empty, r) else readNode handles true true bound r
      let (value, r) ←
        match r.after? .value with
        | some r =>
          if r.startsWith ends then some (Node.empty, r) else readNode handles true true bound r
        | none => some (Node.empty, r)
      let (entries, r) ← readBlockEntries handles bound r
      return ((key, value) :: entries, r)
    | none => (r.after? .blockEnd).map ([], ·)

/-- The items of a list in flow style, one of which may be a mapping of one entry. -/
def readItems (handles : Handles) (first : Bool) : (bound : Nat) → Rest → Option (List Node × Rest)
  | 0, _ => none
  | bound + 1, r =>
    match r.after? .closeList with
    | some r => some ([], r)
    | none => do
      let r ← if first then some r else r.after? .comma
      match r.after? .closeList, r.after? .key with
      | some r, _ => return ([], r)
      | none, some r =>
        let (key, r) ←
          if r.startsWith [.value, .comma, .closeList] then some (Node.empty, r.skip)
          else readNode handles false false bound r
        let (value, r) ← readFlowValue handles .closeList bound r
        let (items, r) ← readItems handles false bound r
        return (.mapping [(key, value)] :: items, r)
      | none, none =>
        let (item, r) ← readNode handles false false bound r
        let (items, r) ← readItems handles false bound r
        return (item :: items, r)

def readFlowValue (handles : Handles) (close : Token) : (bound : Nat) → Rest → Option (Node × Rest)
  | 0, _ => none
  | bound + 1, r =>
    match r.after? .value with
    | some r =>
      if r.startsWith [.comma, close] then some (Node.empty, r)
      else readNode handles false false bound r
    | none => some (Node.empty, r)

/-- The entries of a mapping in flow style. A node alone is a key without a value. -/
def readEntries (handles : Handles) (first : Bool) :
    (bound : Nat) → Rest → Option (List (Node × Node) × Rest)
  | 0, _ => none
  | bound + 1, r =>
    match r.after? .closeMapping with
    | some r => some ([], r)
    | none => do
      let r ← if first then some r else r.after? .comma
      match r.after? .closeMapping, r.after? .key with
      | some r, _ => return ([], r)
      | none, some r =>
        let (key, r) ←
          if r.startsWith [.value, .comma, .closeMapping] then some (Node.empty, r)
          else readNode handles false false bound r
        let (value, r) ← readFlowValue handles .closeMapping bound r
        let (entries, r) ← readEntries handles false bound r
        return ((key, value) :: entries, r)
      | none, none =>
        let (key, r) ← readNode handles false false bound r
        let (entries, r) ← readEntries handles false bound r
        return ((key, Node.empty) :: entries, r)

end

end TwinGraph.Yaml
