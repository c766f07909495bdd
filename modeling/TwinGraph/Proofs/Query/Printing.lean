import TwinGraph.Query.Reading
import TwinGraph.Proofs.Query.Keyword

/-! The text of a query, with single spaces between its clauses and none inside of its patterns,
and the queries that can be written so. -/
namespace TwinGraph

open Query

/-- A number of steps, a least one or a bound on either side. -/
def IsHops (s : Text) : Prop :=
  ∃ least : Text, (∀ c ∈ least, c.isDigit = true) ∧
    (s = '*' :: least ∨ ∃ most : Text, (∀ c ∈ most, c.isDigit = true) ∧
      s = '*' :: least ++ '.' :: '.' :: most)

def IsAlias (s : Text) : Prop :=
  isIdentifier s = true ∧ clauseWords.any (Text.sameLetters s) = false

instance (s : Text) : Decidable (IsAlias s) := inferInstanceAs (Decidable (_ ∧ _))

namespace NodePattern

def labelPart : Option Text → Text
  | none => []
  | some label => ':' :: label

def print (n : NodePattern) : Text := '(' :: n.var.getD [] ++ (labelPart n.label ++ [')'])

structure Legal (n : NodePattern) : Prop where
  var : ∀ var ∈ n.var, isIdentifier var = true
  label : ∀ label ∈ n.label, isIdentifier label = true

end NodePattern

structure EdgeDetail.Legal (d : EdgeDetail) : Prop where
  var : ∀ var ∈ d.var, isIdentifier var = true
  labels : ∀ label ∈ d.labels, isIdentifier label = true
  hops : ∀ hops ∈ d.hops, IsHops hops

def EdgePattern.Legal (e : EdgePattern) : Prop := ∀ detail ∈ e.detail, detail.Legal

namespace PathPattern

def printStep (step : EdgePattern × NodePattern) : Text := step.1.render ++ step.2.print

def print (p : PathPattern) : Text := p.start.print ++ (p.chain.map printStep).flatten

structure Legal (p : PathPattern) : Prop where
  start : p.start.Legal
  chain : ∀ step ∈ p.chain, step.1.Legal ∧ step.2.Legal

end PathPattern

def aliasPart : Option Text → Text
  | none => []
  | some var => ' ' :: var

structure Join.Legal (j : Join) : Prop where
  target : IsAlias j.target
  source : IsAlias j.source
  relationship : isIdentifier j.relationship = true
  var : ∀ var ∈ j.var, IsAlias var

def Join.print (j : Join) : Text :=
  ' ' :: ("JOIN" ++ ' ' :: (j.target ++ ' ' :: ("RELATED" ++ ' ' :: (j.source ++ '.' ::
    (j.relationship ++ aliasPart j.var)))))

namespace Source

def Legal : Source → Prop
  | .collection _ var => ∀ name ∈ var, IsAlias name
  | .joins var links => (∀ name ∈ var, IsAlias name) ∧ links ≠ [] ∧ ∀ link ∈ links, link.Legal
  | .paths patterns => patterns ≠ [] ∧ ∀ path ∈ patterns, path.Legal

def print (comma : Text) : Source → Text
  | .collection kind var => kind.keyword ++ aliasPart var
  | .joins var links =>
    Collection.twins.keyword ++ (aliasPart var ++ (links.map Join.print).flatten)
  | .paths patterns =>
    Collection.twins.keyword ++ ' ' :: ("MATCH" ++ ' ' ::
      Text.separated comma (patterns.map PathPattern.print))

end Source

namespace Query

def topPart : Option Nat → Text
  | none => []
  | some n => "TOP" ++ '(' :: (Text.ofNat n ++ [')', ' '])

def conditionsPart : Option Text → Text
  | none => []
  | some conditions => ' ' :: ("WHERE" ++ ' ' :: conditions)

def print (comma : Text) (q : Query) : Text :=
  "SELECT" ++ ' ' :: (topPart q.top ++ (q.projections ++ ' ' ::
    ("FROM" ++ ' ' :: (q.source.print comma ++ conditionsPart q.conditions))))

/-- The text begins with the word TOP and a number in parentheses, with or without gaps. -/
def LeadsTop (s : Text) : Prop :=
  ∃ word digits rest gap₁ gap₂ gap₃ : Text,
    s = word ++ (gap₁ ++ '(' :: (gap₂ ++ (digits ++ (gap₃ ++ ')' :: rest)))) ∧
    word.sameLetters "TOP" = true ∧ digits ≠ [] ∧ (∀ c ∈ digits, c.isDigit = true) ∧
    ∀ c ∈ gap₁ ++ (gap₂ ++ gap₃), isGap c = true

structure Legal (q : Query) : Prop where
  top : ∀ n ∈ q.top, n ≤ maxTop
  projections : q.projections ≠ []
  trimmed : q.projections.trim = q.projections
  closed : Closed q.projections
  lacksFrom : Lacks "FROM" q.projections
  lacksTop : q.top = none → ¬LeadsTop q.projections
  source : q.source.Legal
  conditions : ∀ conditions ∈ q.conditions, conditions ≠ [] ∧ conditions.trim = conditions

end Query
end TwinGraph
