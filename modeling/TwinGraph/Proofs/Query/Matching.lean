import Mathlib.Data.List.Forall2
import TwinGraph.Query.Pattern
import TwinGraph.Proofs.Query.Scanned

/-! Paths that are matched say the same as the paths that were read. Labels that are taken out of
the pattern come back as conditions on an alias, and nothing else is taken out. -/
namespace TwinGraph

open Query Scan

namespace NodePattern

def asTwin : NodePattern → NodePattern
  | ⟨some var, none⟩ => ⟨some var, some twinLabel⟩
  | n => n

theorem render_eq_print (n : NodePattern) : n.render = n.asTwin.print := by
  obtain ⟨_ | var, _ | label⟩ := n <;> simp [render, asTwin, print, labelPart, Text.joined]

theorem Legal.asTwin {n : NodePattern} (hn : n.Legal) : n.asTwin.Legal := by
  obtain ⟨_ | var, _ | label⟩ := n
  case some.none =>
    refine ⟨hn.var, ?_⟩
    rintro _ ⟨⟩
    decide
  all_goals exact hn

end NodePattern

namespace EdgeDetail

/-- Labels can be taken off where an alias stands to put a condition on. -/
def relabelled (strips : Bool) (d : EdgeDetail) : EdgeDetail :=
  { d with labels := if strips && d.var.isSome then [] else d.labels }

/-- Several labels and no alias to put a condition on. -/
def Stuck (d : EdgeDetail) : Prop := 2 ≤ d.labels.length ∧ d.var = none

instance (d : EdgeDetail) : Decidable d.Stuck := inferInstanceAs (Decidable (_ ∧ _))

theorem withoutLabels_eq (d : EdgeDetail) : d.withoutLabels = d.relabelled true := by
  obtain ⟨_ | var, labels, hops⟩ := d <;> rfl

@[simp] theorem relabelled_false (d : EdgeDetail) : d.relabelled false = d := rfl

theorem Legal.relabelled {d : EdgeDetail} (hd : d.Legal) (strips : Bool) :
    (d.relabelled strips).Legal := by
  refine ⟨hd.var, fun label hlabel => ?_, hd.hops⟩
  rw [EdgeDetail.relabelled] at hlabel
  dsimp only at hlabel
  split at hlabel
  · exact absurd hlabel List.not_mem_nil
  · exact hd.labels label hlabel

end EdgeDetail

namespace EdgePattern

def relabelled (strips : Bool) (e : EdgePattern) : EdgePattern :=
  { e with detail := e.detail.map (EdgeDetail.relabelled strips) }

theorem withoutLabels_eq (e : EdgePattern) : e.withoutLabels = e.relabelled true := by
  obtain ⟨direction, _ | d⟩ := e
  · rfl
  · simp only [withoutLabels, relabelled, Option.map_some, EdgeDetail.withoutLabels_eq]

theorem relabelled_false (e : EdgePattern) : e.relabelled false = e := by
  obtain ⟨direction, _ | d⟩ := e <;> rfl

theorem Legal.relabelled {e : EdgePattern} (he : e.Legal) (strips : Bool) :
    (e.relabelled strips).Legal := by
  intro d hd
  obtain ⟨d', hd', rfl⟩ := Option.map_eq_some_iff.mp hd
  exact (he d' hd').relabelled strips

end EdgePattern

namespace PathPattern

def rewritten (strips : Bool) (p : PathPattern) : PathPattern :=
  ⟨p.start.asTwin, p.chain.map fun (edge, node) => (edge.relabelled strips, node.asTwin)⟩

theorem render_eq_print (p : PathPattern) : p.render = (p.rewritten false).print := by
  simp only [render, print, rewritten, NodePattern.render_eq_print, EdgePattern.relabelled_false,
    List.map_map]
  rfl

theorem render_withoutLabels (p : PathPattern) :
    p.withoutLabels.render = (p.rewritten true).print := by
  simp only [render, print, rewritten, withoutLabels, NodePattern.render_eq_print,
    EdgePattern.withoutLabels_eq, List.map_map]
  rfl

theorem Legal.rewritten {p : PathPattern} (hp : p.Legal) (strips : Bool) :
    (p.rewritten strips).Legal := by
  refine ⟨hp.start.asTwin, fun step hstep => ?_⟩
  obtain ⟨⟨edge, node⟩, hmem, rfl⟩ := List.mem_map.mp hstep
  obtain ⟨hedge, hnode⟩ := hp.chain _ hmem
  exact ⟨hedge.relabelled strips, hnode.asTwin⟩

end PathPattern

def edgeDetails (paths : List PathPattern) : List EdgeDetail :=
  (paths.flatMap PathPattern.edges).filterMap EdgePattern.detail

theorem legal_edgeDetails {paths : List PathPattern} (h : ∀ p ∈ paths, p.Legal) :
    ∀ d ∈ edgeDetails paths, d.Legal := by
  intro d hd
  obtain ⟨e, he, hdetail⟩ := List.mem_filterMap.mp hd
  obtain ⟨p, hp, he⟩ := List.mem_flatMap.mp he
  obtain ⟨step, hstep, rfl⟩ := List.mem_map.mp he
  exact ((h p hp).chain step hstep).1 d hdetail

def offersChoice (paths : List PathPattern) : Bool :=
  decide (∃ d ∈ edgeDetails paths, 2 ≤ d.labels.length)

/-- `(label(R) = 'a' OR label(R) = 'b')` -/
def labelCondition (var : Text) (labels : List Text) : Text :=
  Text.joined ["(", Text.separated " OR " (labels.map fun label =>
    Text.joined ["label(", var, ") = '", label, "'"]), ")"]

def EdgeDetail.condition (d : EdgeDetail) : Option Text :=
  d.var.bind fun var => if d.labels.isEmpty then none else some (labelCondition var d.labels)

namespace EdgePattern

theorem isAlternation_and_not_hasAlias (e : EdgePattern) :
    (e.isAlternation && !e.hasAlias) = e.detail.any fun d => decide d.Stuck := by
  obtain ⟨direction, _ | ⟨_ | var, labels, hops⟩⟩ := e <;>
    simp [isAlternation, hasAlias, EdgeDetail.isAlternation, EdgeDetail.Stuck,
      Nat.lt_iff_add_one_le]

theorem filterMap_labelPredicate (edges : List EdgePattern) :
    edges.filterMap labelPredicate = (edges.filterMap detail).filterMap EdgeDetail.condition := by
  rw [List.filterMap_filterMap]
  refine List.filterMap_congr fun e _ => ?_
  obtain ⟨direction, _ | ⟨_ | var, labels, hops⟩⟩ := e <;> rfl

end EdgePattern

theorem any_isAlternation (paths : List PathPattern) :
    (paths.flatMap PathPattern.edges).any EdgePattern.isAlternation = offersChoice paths := by
  rw [Bool.eq_iff_iff, List.any_eq_true, offersChoice, decide_eq_true_iff]
  constructor
  · rintro ⟨⟨direction, detail⟩, he, hd⟩
    obtain ⟨d, rfl, hd⟩ := (Option.any_eq_true _ _).mp hd
    exact ⟨d, List.mem_filterMap.mpr ⟨_, he, rfl⟩, of_decide_eq_true hd⟩
  · rintro ⟨d, hd, hlabels⟩
    obtain ⟨e, he, hdetail⟩ := List.mem_filterMap.mp hd
    exact ⟨e, he, (Option.any_eq_true _ _).mpr ⟨d, hdetail, decide_eq_true hlabels⟩⟩

/-- The first of the details that are stuck decides whether the paths can be matched. -/
theorem MatchClause.ofPaths_eq (paths : List PathPattern) :
    ofPaths paths = match (edgeDetails paths).find? (fun d => decide d.Stuck) with
      | some d => .error (.alternationWithoutAlias (Text.separated "|" d.labels))
      | none => .ok ⟨Text.separated "," ((paths.map (·.rewritten (offersChoice paths))).map
            PathPattern.print),
          if offersChoice paths then (edgeDetails paths).filterMap EdgeDetail.condition
          else []⟩ := by
  unfold ofPaths
  simp only [EdgePattern.isAlternation_and_not_hasAlias]
  rw [edgeDetails, List.find?_filterMap, any_isAlternation, EdgePattern.filterMap_labelPredicate]
  cases hfind : (paths.flatMap PathPattern.edges).find? fun e => e.detail.any fun d =>
      decide d.Stuck with
  | some e =>
    have hstuck := List.find?_some hfind
    obtain ⟨d, hd, -⟩ := (Option.any_eq_true _ _).mp hstuck
    simp only [Option.bind_some, hd, Option.map_some, Option.getD_some]
  | none =>
    simp only [Option.bind_none, List.map_map]
    cases offersChoice paths with
    | true =>
      have hrender : paths.map (fun p => p.withoutLabels.render) =
          paths.map (PathPattern.print ∘ fun p => p.rewritten true) :=
        List.map_congr_left fun p _ => p.render_withoutLabels
      rw [if_pos rfl, if_pos rfl, hrender]
    | false =>
      have hrender : paths.map PathPattern.render =
          paths.map (PathPattern.print ∘ fun p => p.rewritten false) :=
        List.map_congr_left fun p _ => p.render_eq_print
      rw [if_neg Bool.false_ne_true, if_neg Bool.false_ne_true, hrender]

theorem conditions_of_lost (strips : Bool) (details : List EdgeDetail) :
    List.Forall₂ (fun condition d => ∃ var ∈ d.var, condition = labelCondition var d.labels)
      (if strips then details.filterMap EdgeDetail.condition else [])
      (details.filter fun d => d.relabelled strips ≠ d) := by
  cases strips with
  | false => simp
  | true =>
    rw [if_pos rfl]
    induction details with
    | nil => exact .nil
    | cons d details ih =>
      obtain ⟨_ | var, _ | ⟨label, labels⟩, hops⟩ := d
      case some.cons =>
        have hcondition : EdgeDetail.condition ⟨some var, label :: labels, hops⟩ =
            some (labelCondition var (label :: labels)) := rfl
        rw [List.filterMap_cons_some hcondition,
          List.filter_cons_of_pos (by simp [EdgeDetail.relabelled])]
        exact .cons ⟨var, rfl, rfl⟩ ih
      all_goals
        rw [List.filterMap_cons_none rfl, List.filter_cons_of_neg (by simp [EdgeDetail.relabelled])]
        exact ih

/-! ### No choice of labels is left -/

theorem not_bar_of_isIdentifier {name : Text} (hname : isIdentifier name = true) : '|' ∉ name :=
  fun hbar => absurd (isNameChar_of_mem hname '|' hbar) (by decide)

theorem not_bar_getD {word : Option Text} (h : ∀ s ∈ word, '|' ∉ s) : '|' ∉ word.getD [] := by
  cases word with
  | none => exact List.not_mem_nil
  | some s => exact h s rfl

theorem NodePattern.not_bar_print {n : NodePattern} (hn : n.Legal) : '|' ∉ n.print := by
  obtain ⟨var, label⟩ := n
  have hvar := not_bar_getD fun name hname => not_bar_of_isIdentifier (hn.var name hname)
  have hlabel : '|' ∉ labelPart label := by
    cases label with
    | none => exact List.not_mem_nil
    | some label => simpa [labelPart] using not_bar_of_isIdentifier (hn.label label rfl)
  simp [print, hvar, hlabel]

theorem IsHops.not_bar {hops : Text} (h : IsHops hops) : '|' ∉ hops := by
  have hdigits : ∀ digits : Text, (∀ c ∈ digits, c.isDigit = true) → '|' ∉ digits :=
    fun digits h hbar => absurd (h '|' hbar) (by decide)
  obtain ⟨least, hleast, rfl | ⟨most, hmost, rfl⟩⟩ := h
  · simp [hdigits least hleast]
  · simp [hdigits least hleast, hdigits most hmost]

theorem EdgeDetail.not_bar_render {d : EdgeDetail} (hd : d.Legal) (hlabels : d.labels.length < 2) :
    '|' ∉ d.render := by
  obtain ⟨var, labels, hops⟩ := d
  have hvar := not_bar_getD fun name hname => not_bar_of_isIdentifier (hd.var name hname)
  have hhops := not_bar_getD fun s hs => (hd.hops s hs).not_bar
  have hpart : '|' ∉ labelsPart labels := by
    match labels, hlabels, hd.labels with
    | [], _, _ => exact List.not_mem_nil
    | [label], _, hlabel =>
      have hname := not_bar_of_isIdentifier (hlabel label List.mem_cons_self)
      simpa [labelsPart, Text.separated] using hname
  have htext : render ⟨var, labels, hops⟩ = var.getD [] ++ (labelsPart labels ++ hops.getD []) := by
    simp [render, labelsPart, Text.joined]
  rw [htext, List.mem_append, List.mem_append]
  exact not_or.mpr ⟨hvar, not_or.mpr ⟨hpart, hhops⟩⟩

theorem EdgePattern.not_bar_render {e : EdgePattern} (he : e.Legal)
    (hlabels : ∀ d ∈ e.detail, d.labels.length < 2) : '|' ∉ e.render := by
  obtain ⟨direction, detail⟩ := e
  have harrow : '|' ∉ direction.arrow.1 ∧ '|' ∉ direction.arrow.2 := by
    cases direction <;> decide
  cases detail with
  | none => simpa [render] using harrow
  | some d =>
    have hd := EdgeDetail.not_bar_render (he d rfl) (hlabels d rfl)
    simp [render, Text.joined, harrow, hd]

theorem not_bar_separated {paths : List PathPattern} (hlegal : ∀ p ∈ paths, p.Legal)
    (hlabels : ∀ d ∈ edgeDetails paths, d.labels.length < 2) :
    '|' ∉ Text.separated "," (paths.map PathPattern.print) := by
  have hprint : ∀ p ∈ paths, '|' ∉ p.print := by
    intro p hp hbar
    rw [PathPattern.print, List.mem_append, List.mem_flatten] at hbar
    rcases hbar with hbar | ⟨text, htext, hbar⟩
    · exact NodePattern.not_bar_print (hlegal p hp).start hbar
    · obtain ⟨step, hstep, rfl⟩ := List.mem_map.mp htext
      obtain ⟨hedge, hnode⟩ := (hlegal p hp).chain step hstep
      rcases List.mem_append.mp hbar with hbar | hbar
      · refine EdgePattern.not_bar_render hedge (fun d hd => hlabels d ?_) hbar
        exact List.mem_filterMap.mpr
          ⟨step.1, List.mem_flatMap.mpr ⟨p, hp, List.mem_map_of_mem hstep⟩, hd⟩
      · exact NodePattern.not_bar_print hnode hbar
  cases paths with
  | nil => exact List.not_mem_nil
  | cons first more =>
    rw [List.forall_mem_cons] at hprint
    rw [List.map_cons, separated_eq, List.mem_append, List.mem_flatten]
    rintro (hbar | ⟨text, htext, hbar⟩)
    · exact hprint.1 hbar
    · obtain ⟨text, hmem, rfl⟩ := List.mem_map.mp htext
      obtain ⟨p, hp, rfl⟩ := List.mem_map.mp hmem
      rcases List.mem_append.mp hbar with hbar | hbar
      · exact absurd hbar (by decide)
      · exact hprint.2 p hp hbar

theorem edgeDetails_rewritten (strips : Bool) (paths : List PathPattern) :
    edgeDetails (paths.map (·.rewritten strips)) =
      (edgeDetails paths).map (EdgeDetail.relabelled strips) := by
  have hedges : ∀ p : PathPattern, (p.rewritten strips).edges =
      p.edges.map (EdgePattern.relabelled strips) := by
    intro p
    simp only [PathPattern.edges, PathPattern.rewritten, List.map_map]
    rfl
  rw [edgeDetails, edgeDetails, List.flatMap_map, List.map_filterMap]
  simp only [hedges, ← List.map_flatMap, List.filterMap_map]
  rfl

theorem labels_of_relabelled {paths : List PathPattern}
    (hstuck : ∀ d ∈ edgeDetails paths, ¬d.Stuck) :
    ∀ d ∈ edgeDetails paths, (d.relabelled (offersChoice paths)).labels.length < 2 := by
  intro d hd
  by_cases hlabels : 2 ≤ d.labels.length
  · have hoffers : offersChoice paths = true := decide_eq_true ⟨d, hd, hlabels⟩
    have hvar : d.var.isSome = true := by
      cases hvar : d.var with
      | none => exact absurd ⟨hlabels, hvar⟩ (hstuck d hd)
      | some var => rfl
    simp [EdgeDetail.relabelled, hoffers, hvar]
  · rw [EdgeDetail.relabelled]
    dsimp only
    split
    · exact Nat.zero_lt_two
    · exact Nat.lt_of_not_le hlabels

/-- Paths that were read can be matched unless one of their edges is stuck, and then the first such
is named. What is matched is read back as the same paths, with their nodes as twins and, if any of
the edges offered a choice, without the labels of the edges with an alias. For each edge that has
lost labels there is one condition on its alias, which says the same. -/
theorem MatchClause.ofPaths_scanned {s rest : Text} {paths : List PathPattern}
    (h : scanPaths s = some (paths, rest)) :
    (∀ error, ofPaths paths = .error error ↔ ∃ before d after,
      edgeDetails paths = before ++ d :: after ∧ d.Stuck ∧ (∀ d' ∈ before, ¬d'.Stuck) ∧
        error = .alternationWithoutAlias (Text.separated "|" d.labels)) ∧
    ∀ clause, ofPaths paths = .ok clause →
      scanPaths clause.pattern = some (paths.map (·.rewritten (offersChoice paths)), []) ∧
      '|' ∉ clause.pattern ∧
      List.Forall₂ (fun condition d => ∃ var ∈ d.var, condition = labelCondition var d.labels)
        clause.predicates
        ((edgeDetails paths).filter fun d => d.relabelled (offersChoice paths) ≠ d) := by
  obtain ⟨hne, hlegal⟩ := finds_scanPaths s paths rest h
  rw [ofPaths_eq]
  cases hfind : (edgeDetails paths).find? fun d => decide d.Stuck with
  | some first =>
    have hfirst := List.find?_eq_some_iff_append.mp hfind
    refine ⟨fun error => ⟨?_, ?_⟩, fun clause hclause => by cases hclause⟩
    · rintro ⟨⟩
      obtain ⟨hstuck, before, after, heq, hbefore⟩ := hfirst
      exact ⟨before, first, after, heq, of_decide_eq_true hstuck,
        fun d hd => by simpa using hbefore d hd, rfl⟩
    · rintro ⟨before, d, after, heq, hstuck, hbefore, rfl⟩
      have hfound : (edgeDetails paths).find? (fun d => decide d.Stuck) = some d :=
        List.find?_eq_some_iff_append.mpr
          ⟨decide_eq_true hstuck, before, after, heq, fun d' hd' => by simpa using hbefore d' hd'⟩
      rw [hfind] at hfound
      cases hfound
      rfl
  | none =>
    -- All that is left to say follows from reading back what a legal path is printed as.
    have hstuck : ∀ d ∈ edgeDetails paths, ¬d.Stuck := fun d hd => by
      simpa using List.find?_eq_none.mp hfind d hd
    have hlegal' : ∀ p ∈ paths.map (·.rewritten (offersChoice paths)), p.Legal := by
      rintro _ hp
      obtain ⟨p, hmem, rfl⟩ := List.mem_map.mp hp
      exact (hlegal p hmem).rewritten _
    refine ⟨fun error => ⟨fun herror => (by cases herror), ?_⟩, ?_⟩
    · rintro ⟨before, d, after, heq, hd, -, -⟩
      exact absurd hd (hstuck d (by rw [heq]; simp))
    · rintro _ ⟨⟩
      refine ⟨scanPaths_print (Or.inl rfl) (List.map_eq_nil_iff.not.mpr hne) hlegal',
        not_bar_separated hlegal' ?_, conditions_of_lost _ _⟩
      rw [edgeDetails_rewritten]
      exact List.forall_mem_map.mpr (labels_of_relabelled hstuck)

def corridor : List PathPattern :=
  [⟨⟨some "a", none⟩,
      [(⟨.outgoing, some ⟨some "R", ["has", "feeds"], some "*1..3"⟩⟩, ⟨none, some "Room"⟩),
        (⟨.incoming, some ⟨none, ["in"], none⟩⟩, ⟨some "b", none⟩)]⟩,
    ⟨⟨some "c", none⟩, [(⟨.either, some ⟨some "S", ["has"], none⟩⟩, ⟨none, none⟩)]⟩]

/-- One choice takes the labels off from every edge with an alias, in the other path too. Without
an alias a choice is not matched. -/
theorem corridor_is_rewritten :
    scanPaths "(a)-[R:has|feeds*1..3]->(:Room)<-[:in]-(b), (c)-[S:has]-()" = some (corridor, []) ∧
    (∃ clause, MatchClause.ofPaths corridor = .ok clause ∧
      clause.pattern = "(a:Twin)-[R*1..3]->(:Room)<-[:in]-(b:Twin),(c:Twin)-[S]-()".toList ∧
      scanPaths clause.pattern = some (corridor.map (·.rewritten true), []) ∧
      '|' ∉ clause.pattern ∧
      clause.predicates =
        ["(label(R) = 'has' OR label(R) = 'feeds')".toList, "(label(S) = 'has')".toList]) ∧
    ∃ paths, scanPaths "(a)-[:has]->(b)-[:in|of]->(c)" = some (paths, []) ∧
      MatchClause.ofPaths paths = .error (.alternationWithoutAlias "in|of") := by
  have hread : scanPaths "(a)-[R:has|feeds*1..3]->(:Room)<-[:in]-(b), (c)-[S:has]-()" =
      some (corridor, []) := by decide +kernel
  have hclause : MatchClause.ofPaths corridor =
      .ok ⟨"(a:Twin)-[R*1..3]->(:Room)<-[:in]-(b:Twin),(c:Twin)-[S]-()",
        ["(label(R) = 'has' OR label(R) = 'feeds')", "(label(S) = 'has')"]⟩ := by decide +kernel
  have hother : scanPaths "(a)-[:has]->(b)-[:in|of]->(c)" = some
      ([⟨⟨some "a", none⟩, [(⟨.outgoing, some ⟨none, ["has"], none⟩⟩, ⟨some "b", none⟩),
        (⟨.outgoing, some ⟨none, ["in", "of"], none⟩⟩, ⟨some "c", none⟩)]⟩], []) := by
    decide +kernel
  obtain ⟨hback, hbar, -⟩ := (MatchClause.ofPaths_scanned hread).2 _ hclause
  refine ⟨hread, ⟨_, hclause, rfl, hback, hbar, rfl⟩, _, hother, ?_⟩
  exact ((MatchClause.ofPaths_scanned hother).1 _).mpr
    ⟨[⟨none, ["has"], none⟩], ⟨none, ["in", "of"], none⟩, [], rfl, by decide, by decide, rfl⟩

end TwinGraph
