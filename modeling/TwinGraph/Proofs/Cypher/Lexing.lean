import TwinGraph.Cypher.Literal
import TwinGraph.Cypher.Property

/-! Statements as the store reads them: words, string literals with backslash escapes, names
between backticks, and symbols. A name behind a point is a property, with or without backticks.
A text with a comment, an unknown escape or an open literal has no tokens. -/
namespace TwinGraph.Cypher

inductive Token where
  | word (text : Text)
  | literal (content : Text)
  | property (name : Text)
  | quoted (name : Text)
  | symbol (c : Char)
  deriving DecidableEq, Repr

/-- Where a reader is, with the characters of the open token, the last one first. -/
inductive Place where
  | plain
  | slash
  | dot
  | word (behindDot : Bool) (read : Text)
  | literal (close : Char) (read : Text)
  | escape (close : Char) (read : Text)
  | code (close : Char) (read digits : Text)
  | name (behindDot : Bool) (read : Text)
  | tick (behindDot : Bool) (read : Text)
  | broken
  deriving DecidableEq, Repr

namespace Place

def isWordChar (c : Char) : Bool := isNameChar c || decide (128 ≤ c.toNat)

def isGap (c : Char) : Bool := c == ' ' || c == '\t' || c == '\n' || c == '\r' || c == '\x0c'

def unescape (c : Char) : Option Char :=
  if c = '\\' ∨ c = '\'' ∨ c = '"' ∨ c = '\x60' ∨ c = '/' then some c
  else if c = 'b' then some '\x08'
  else if c = 'f' then some '\x0c'
  else if c = 'n' then some '\n'
  else if c = 'r' then some '\r'
  else if c = 't' then some '\t'
  else none

def codeChar : Text → Option Char
  | [d, c, b, a] => do
    let unit := (((← hexValue a) * 16 + (← hexValue b)) * 16 + (← hexValue c)) * 16 + (← hexValue d)
    return Char.ofNat unit
  | _ => none

def wordToken (behindDot : Bool) (read : Text) : Token :=
  if behindDot then .property read.reverse else .word read.reverse

def nameToken (behindDot : Bool) (read : Text) : Token :=
  if behindDot then .property read.reverse else .quoted read.reverse

/-- The tokens that end where the text ends, if it may end here. -/
def finish : Place → Option (List Token)
  | plain | dot => some []
  | slash => some [.symbol '/']
  | word behindDot read => some [wordToken behindDot read]
  | tick behindDot read => some [nameToken behindDot read]
  | _ => none

def begin (c : Char) : Place × List Token :=
  if c = '\'' ∨ c = '"' then (literal c [], [])
  else if c = '\x60' then (name false [], [])
  else if c = '.' then (dot, [.symbol '.'])
  else if c = '/' then (slash, [])
  else if isWordChar c then (word false [c], [])
  else if isGap c then (plain, [])
  else (plain, [.symbol c])

def after (tokens : List Token) (c : Char) : Place × List Token :=
  ((begin c).1, tokens ++ (begin c).2)

def step (p : Place) (c : Char) : Place × List Token :=
  match p with
  | plain => begin c
  | slash => if c = '/' ∨ c = '*' then (broken, []) else after [.symbol '/'] c
  | dot =>
    if c = '\x60' then (name true [], [])
    else if isWordChar c then (word true [c], [])
    else begin c
  | word behindDot read =>
    if isWordChar c then (word behindDot (c :: read), []) else after [wordToken behindDot read] c
  | literal close read =>
    if c = close then (plain, [.literal read.reverse])
    else if c = '\\' then (escape close read, [])
    else (literal close (c :: read), [])
  | escape close read =>
    if c = 'u' then (code close read [], [])
    else
      match unescape c with
      | some e => (literal close (e :: read), [])
      | none => (broken, [])
  | code close read digits =>
    if digits.length < 3 then (code close read (c :: digits), [])
    else
      match codeChar (c :: digits) with
      | some e => (literal close (e :: read), [])
      | none => (broken, [])
  | name behindDot read =>
    if c = '\x60' then (tick behindDot read, []) else (name behindDot (c :: read), [])
  | tick behindDot read =>
    if c = '\x60' then (name behindDot ('\x60' :: read), [])
    else after [nameToken behindDot read] c
  | broken => (broken, [])

def scan (p : Place) : Text → Place × List Token
  | [] => (p, [])
  | c :: cs => ((scan (p.step c).1 cs).1, (p.step c).2 ++ (scan (p.step c).1 cs).2)

end Place

def lex (s : Text) : Option (List Token) :=
  (Place.scan .plain s).1.finish.map ((Place.scan .plain s).2 ++ ·)

namespace Place

theorem scan_append (p : Place) (s t : Text) :
    p.scan (s ++ t) = (((p.scan s).1.scan t).1, (p.scan s).2 ++ ((p.scan s).1.scan t).2) := by
  induction s generalizing p with
  | nil => rfl
  | cons c s ih => simp only [List.cons_append, scan, ih, List.append_assoc]

/-- A character that ends whatever token may end in front of it. -/
def delimits (c : Char) : Bool := !isWordChar c && c != '\x60' && c != '/' && c != '*'

theorem step_delimits {p : Place} {c : Char} {tokens : List Token} (hp : p.finish = some tokens)
    (hc : delimits c = true) : p.step c = after tokens c := by
  simp only [delimits, Bool.and_eq_true, Bool.not_eq_true', bne_iff_ne, ne_eq] at hc
  obtain ⟨⟨⟨hword, htick⟩, hslash⟩, hstar⟩ := hc
  cases p with
  | plain | dot => cases hp; simp [step, after, hword, htick]
  | slash => cases hp; simp [step, hslash, hstar]
  | word behindDot read => cases hp; simp [step, hword]
  | tick behindDot read => cases hp; simp [step, htick]
  | _ => cases hp

end Place

/-- Behind a complete text a delimiter starts anew. -/
theorem lex_append {s t : Text} {ts us : List Token} {c : Char} (hs : lex s = some ts)
    (hc : Place.delimits c = true) (ht : lex (c :: t) = some us) :
    lex (s ++ c :: t) = some (ts ++ us) := by
  unfold lex at hs ht ⊢
  obtain ⟨ending, hending, rfl⟩ := Option.map_eq_some_iff.mp hs
  have hstep := Place.step_delimits hending hc
  rw [Place.scan_append]
  simp only [Place.scan, hstep, Place.after]
  simp only [Place.scan, Place.step] at ht
  obtain ⟨last, hlast, rfl⟩ := Option.map_eq_some_iff.mp ht
  rw [hlast]
  simp

theorem lex_of_plain {s : Text} {ts : List Token} (hs : Place.scan .plain s = (.plain, ts)) :
    lex s = some ts := by
  unfold lex
  rw [hs]
  simp [Place.finish]

end TwinGraph.Cypher
