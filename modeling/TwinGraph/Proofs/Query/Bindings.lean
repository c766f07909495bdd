import TwinGraph.Proofs.Query.Matching

/-! What path patterns match in a labelled graph. Labels that are taken out of a pattern and come
back as conditions on an alias say the same of a single edge; a condition on a run of edges never
holds. -/
namespace TwinGraph

open Query Scan

structure PropertyGraph where
  Vertex : Type
  Edge : Type
  labels : Vertex → List Text
  label : Edge → Text
  source : Edge → Vertex
  target : Edge → Vertex

namespace PropertyGraph

/-- An edge with a hop suffix stands for a run of edges, even if there is only one. -/
inductive Value (G : PropertyGraph) where
  | vertex (v : G.Vertex)
  | edge (e : G.Edge)
  | run (es : List G.Edge)

abbrev Binding (G : PropertyGraph) := Text → Option G.Value

variable {G : PropertyGraph}

inductive Crosses : Direction → G.Vertex → G.Edge → G.Vertex → Prop
  | forward {direction} (e : G.Edge) : direction ≠ .incoming →
      Crosses direction (G.source e) e (G.target e)
  | backward {direction} (e : G.Edge) : direction ≠ .outgoing →
      Crosses direction (G.target e) e (G.source e)

inductive Walk (direction : Direction) : G.Vertex → List G.Edge → G.Vertex → Prop
  | nil (v) : Walk direction v [] v
  | cons {u e v es w} : Crosses direction u e v → Walk direction v es w →
      Walk direction u (e :: es) w

end PropertyGraph

open PropertyGraph

/-- The numbers of edges that `*`, `*2`, `*1..3`, `*2..` and `*..3` allow. -/
def Spans (hops : Text) (n : Nat) : Prop :=
  let least := (hops.drop 1).takeWhile Char.isDigit
  let rest := (hops.drop 1).dropWhile Char.isDigit
  let most := if rest.isEmpty then least else rest.drop 2
  (if least.isEmpty then 1 else Text.natValue least) ≤ n ∧
    (most.isEmpty ∨ n ≤ Text.natValue most)

variable {G : PropertyGraph} {rule : List G.Edge → Prop} {env : Binding G}

namespace NodePattern

structure Fits (env : Binding G) (n : NodePattern) (v : G.Vertex) : Prop where
  var : ∀ var ∈ n.var, env var = some (.vertex v)
  label : ∀ label ∈ n.label, label ∈ G.labels v

def IsTwin (env : Binding G) (n : NodePattern) : Prop :=
  n.label = none → ∀ var ∈ n.var, ∃ v, env var = some (.vertex v) ∧ twinLabel ∈ G.labels v

theorem fits_asTwin {n : NodePattern} {v : G.Vertex} :
    n.asTwin.Fits env v ↔ n.Fits env v ∧ n.IsTwin env := by
  obtain ⟨_ | var, _ | label⟩ := n
  case some.none =>
    constructor
    · intro h
      have hvar := h.var var rfl
      refine ⟨⟨fun name hname => h.var name hname, by simp⟩, ?_⟩
      rintro - _ ⟨⟩
      exact ⟨v, hvar, h.label twinLabel rfl⟩
    · rintro ⟨h, htwin⟩
      refine ⟨fun name hname => h.var name hname, ?_⟩
      rintro _ ⟨⟩
      obtain ⟨v', hv', hlabel⟩ := htwin rfl var rfl
      rw [h.var var rfl] at hv'
      cases hv'
      exact hlabel
  all_goals exact ⟨fun h => ⟨h, by simp [IsTwin]⟩, fun h => h.1⟩

end NodePattern

namespace EdgeDetail

structure Fits (env : Binding G) (d : EdgeDetail) (es : List G.Edge) : Prop where
  labels : d.labels ≠ [] → ∀ e ∈ es, G.label e ∈ d.labels
  single : d.hops = none → ∃ e, es = [e] ∧ ∀ var ∈ d.var, env var = some (.edge e)
  hops : ∀ hops ∈ d.hops, Spans hops es.length ∧ ∀ var ∈ d.var, env var = some (.run es)

def Tested (env : Binding G) (d : EdgeDetail) : Prop :=
  ∀ var ∈ d.var, ∃ e, env var = some (.edge e) ∧ G.label e ∈ d.labels

def Lost (strips : Bool) (d : EdgeDetail) : Prop := d.relabelled strips ≠ d

theorem Lost.var {strips : Bool} {d : EdgeDetail} (h : d.Lost strips) :
    ∃ var, d.var = some var ∧ (d.relabelled strips).labels = [] := by
  obtain ⟨_ | var, labels, hops⟩ := d
  · exact absurd (by simp [relabelled]) h
  · cases strips with
    | false => exact absurd rfl h
    | true => exact ⟨var, rfl, rfl⟩

/-- Of a single edge the condition says what the labels said, and it never holds of a run. -/
theorem fits_relabelled {strips : Bool} {d : EdgeDetail} {es : List G.Edge} :
    ((d.relabelled strips).Fits env es ∧ (d.Lost strips → d.Tested env)) ↔
      d.Fits env es ∧ (d.Lost strips → d.hops = none) := by
  by_cases hlost : d.Lost strips
  · obtain ⟨var, hvar, hlabels⟩ := hlost.var
    simp only [hlost, true_imp_iff]
    constructor
    · rintro ⟨h, htested⟩
      obtain ⟨e, he, hlabel⟩ := htested var hvar
      have hhops : d.hops = none := by
        cases hhops : d.hops with
        | none => rfl
        | some hops =>
          have hrun := (h.hops hops hhops).2 var hvar
          rw [he] at hrun
          cases hrun
      obtain ⟨e', rfl, hedge⟩ := h.single hhops
      have heq := hedge var hvar
      rw [he] at heq
      cases heq
      have hlabels : ∀ e' ∈ [e], G.label e' ∈ d.labels := List.forall_mem_singleton.mpr hlabel
      exact ⟨⟨fun _ => hlabels, fun _ => ⟨e, rfl, hedge⟩, h.hops⟩, hhops⟩
    · rintro ⟨h, hhops⟩
      obtain ⟨e, rfl, hedge⟩ := h.single hhops
      refine ⟨⟨fun hne => absurd hlabels hne, h.single, h.hops⟩, fun name hname => ?_⟩
      refine ⟨e, hedge name hname, h.labels (fun hnil => hlost ?_) e List.mem_cons_self⟩
      rw [relabelled, hnil, ite_self, ← hnil]
  · have hsame : d.relabelled strips = d := not_not.mp hlost
    simp only [hsame, hlost, false_imp_iff, and_true]

end EdgeDetail

namespace EdgePattern

def Fits (env : Binding G) (e : EdgePattern) (es : List G.Edge) : Prop :=
  match e.detail with
  | none => ∃ edge, es = [edge]
  | some d => d.Fits env es

theorem fits_relabelled {strips : Bool} {e : EdgePattern} {es : List G.Edge} :
    ((e.relabelled strips).Fits env es ∧ ∀ d ∈ e.detail, d.Lost strips → d.Tested env) ↔
      e.Fits env es ∧ ∀ d ∈ e.detail, d.Lost strips → d.hops = none := by
  obtain ⟨direction, _ | d⟩ := e
  · simp [Fits, relabelled]
  · simpa [Fits, relabelled] using EdgeDetail.fits_relabelled

end EdgePattern

namespace PathPattern

inductive Follows (env : Binding G) :
    G.Vertex → List (EdgePattern × NodePattern) → List G.Edge → Prop
  | nil (u) : Follows env u [] []
  | cons {u edge node chain run v es} : edge.Fits env run → Walk edge.direction u run v →
      node.Fits env v → Follows env v chain es → Follows env u ((edge, node) :: chain) (run ++ es)

def Fits (env : Binding G) (p : PathPattern) (es : List G.Edge) : Prop :=
  ∃ u, p.start.Fits env u ∧ Follows env u p.chain es

def nodes (p : PathPattern) : List NodePattern := p.start :: p.chain.map (·.2)

def details (p : PathPattern) : List EdgeDetail := p.edges.filterMap EdgePattern.detail

theorem follows_rewritten {strips : Bool} {chain : List (EdgePattern × NodePattern)} {u : G.Vertex}
    {es : List G.Edge} :
    (Follows env u (chain.map fun (edge, node) => (edge.relabelled strips, node.asTwin)) es ∧
      ∀ step ∈ chain, ∀ d ∈ step.1.detail, d.Lost strips → d.Tested env) ↔
    Follows env u chain es ∧ (∀ step ∈ chain, step.2.IsTwin env) ∧
      ∀ step ∈ chain, ∀ d ∈ step.1.detail, d.Lost strips → d.hops = none := by
  induction chain generalizing u es with
  | nil => simp
  | cons step chain ih =>
    obtain ⟨edge, node⟩ := step
    simp only [List.map_cons, List.forall_mem_cons]
    constructor
    · rintro ⟨h, htested, hmore⟩
      cases h with
      | cons hedge hwalk hnode hchain =>
        obtain ⟨hedge, hhops⟩ := EdgePattern.fits_relabelled.mp ⟨hedge, htested⟩
        obtain ⟨hnode, htwin⟩ := NodePattern.fits_asTwin.mp hnode
        obtain ⟨hchain, htwins, hhops'⟩ := ih.mp ⟨hchain, hmore⟩
        exact ⟨.cons hedge hwalk hnode hchain, ⟨htwin, htwins⟩, hhops, hhops'⟩
    · rintro ⟨h, ⟨htwin, htwins⟩, hhops, hhops'⟩
      cases h with
      | cons hedge hwalk hnode hchain =>
        obtain ⟨hedge, htested⟩ := EdgePattern.fits_relabelled.mpr ⟨hedge, hhops⟩
        obtain ⟨hchain, hmore⟩ := ih.mpr ⟨hchain, htwins, hhops'⟩
        have hnode := NodePattern.fits_asTwin.mpr ⟨hnode, htwin⟩
        exact ⟨.cons hedge hwalk hnode hchain, htested, hmore⟩

theorem forall_details {p : PathPattern} {P : EdgeDetail → Prop} :
    (∀ d ∈ p.details, P d) ↔ ∀ step ∈ p.chain, ∀ d ∈ step.1.detail, P d := by
  simp only [details, edges, List.mem_filterMap, List.mem_map]
  constructor
  · exact fun h step hstep d hd => h d ⟨step.1, ⟨step, hstep, rfl⟩, hd⟩
  · rintro h d ⟨_, ⟨step, hstep, rfl⟩, hd⟩
    exact h step hstep d hd

theorem fits_rewritten {strips : Bool} {p : PathPattern} {es : List G.Edge} :
    ((p.rewritten strips).Fits env es ∧ ∀ d ∈ p.details, d.Lost strips → d.Tested env) ↔
      p.Fits env es ∧ (∀ n ∈ p.nodes, n.IsTwin env) ∧
        ∀ d ∈ p.details, d.Lost strips → d.hops = none := by
  have htwins : (∀ n ∈ p.nodes, n.IsTwin env) ↔
      p.start.IsTwin env ∧ ∀ step ∈ p.chain, step.2.IsTwin env := by
    rw [nodes, List.forall_mem_cons, List.forall_mem_map]
  rw [forall_details, forall_details, htwins]
  constructor
  · rintro ⟨⟨u, hstart, hchain⟩, htested⟩
    obtain ⟨hstart, htwin⟩ := NodePattern.fits_asTwin.mp hstart
    obtain ⟨hchain, htwins, hhops⟩ := follows_rewritten.mp ⟨hchain, htested⟩
    exact ⟨⟨u, hstart, hchain⟩, ⟨htwin, htwins⟩, hhops⟩
  · rintro ⟨⟨u, hstart, hchain⟩, ⟨htwin, htwins⟩, hhops⟩
    obtain ⟨hchain, htested⟩ := follows_rewritten.mpr ⟨hchain, htwins, hhops⟩
    exact ⟨⟨u, NodePattern.fits_asTwin.mpr ⟨hstart, htwin⟩, hchain⟩, htested⟩

end PathPattern

/-- A binding that all paths agree with, where the edges passed on the way obey the rule, such as
that no edge is passed twice. -/
def PropertyGraph.Matches (rule : List G.Edge → Prop) (env : Binding G)
    (paths : List PathPattern) : Prop :=
  ∃ runs, List.Forall₂ (PathPattern.Fits env) paths runs ∧ rule runs.flatten

theorem edgeDetails_cons (p : PathPattern) (paths : List PathPattern) :
    edgeDetails (p :: paths) = p.details ++ edgeDetails paths := by
  rw [edgeDetails, List.flatMap_cons, List.filterMap_append]
  rfl

theorem forall₂_rewritten {strips : Bool} {paths : List PathPattern} {runs : List (List G.Edge)} :
    (List.Forall₂ (PathPattern.Fits env) (paths.map (·.rewritten strips)) runs ∧
      ∀ d ∈ edgeDetails paths, d.Lost strips → d.Tested env) ↔
    List.Forall₂ (PathPattern.Fits env) paths runs ∧
      (∀ n ∈ paths.flatMap PathPattern.nodes, n.IsTwin env) ∧
      ∀ d ∈ edgeDetails paths, d.Lost strips → d.hops = none := by
  induction paths generalizing runs with
  | nil => simp [edgeDetails]
  | cons p paths ih =>
    simp only [edgeDetails_cons, List.map_cons, List.flatMap_cons, List.forall_mem_append]
    constructor
    · rintro ⟨h, htested, hmore⟩
      cases h with
      | cons hp hpaths =>
        obtain ⟨hp, htwins, hhops⟩ := PathPattern.fits_rewritten.mp ⟨hp, htested⟩
        obtain ⟨hpaths, htwins', hhops'⟩ := ih.mp ⟨hpaths, hmore⟩
        exact ⟨.cons hp hpaths, ⟨htwins, htwins'⟩, hhops, hhops'⟩
    · rintro ⟨h, ⟨htwins, htwins'⟩, hhops, hhops'⟩
      cases h with
      | cons hp hpaths =>
        obtain ⟨hp, htested⟩ := PathPattern.fits_rewritten.mpr ⟨hp, htwins, hhops⟩
        obtain ⟨hpaths, hmore⟩ := ih.mpr ⟨hpaths, htwins', hhops'⟩
        exact ⟨.cons hp hpaths, htested, hmore⟩

/-! ### The conditions on aliases -/

/-- `label(R) = 'has'` -/
def scanLabelTest : Scanner (Text × Text) := fun s => do
  let s ← Text.after? "label(" s
  let (var, s) ← scanName s
  let s ← Text.after? ") = '" s
  let (label, s) ← scanName s
  let s ← Text.after? ['\''] s
  some ((var, label), s)

/-- `(label(R) = 'has' OR label(R) = 'feeds')` -/
def scanLabelTests : Scanner (List (Text × Text)) := fun s => do
  let s ← Text.after? ['('] s
  let (tests, s) ← listOf (Text.after? " OR ") scanLabelTest s
  let s ← Text.after? [')'] s
  some (tests, s)

def HasLabel (env : Binding G) (test : Text × Text) : Prop :=
  ∃ e, env test.1 = some (.edge e) ∧ G.label e = test.2

def MatchClause.Matches (rule : List G.Edge → Prop) (env : Binding G) (clause : MatchClause) :
    Prop :=
  ∃ paths, scanPaths clause.pattern = some (paths, []) ∧ G.Matches rule env paths ∧
    ∀ predicate ∈ clause.predicates, ∃ tests, scanLabelTests predicate = some (tests, []) ∧
      ∃ test ∈ tests, HasLabel env test

theorem after?_append (p s : Text) : Text.after? p (p ++ s) = some s :=
  Text.after?_eq_some_iff.mpr rfl

def writeLabelTest (test : Text × Text) : Text :=
  Text.joined ["label(", test.1, ") = '", test.2, "'"]

theorem scanLabelTest_write {test : Text × Text} (hvar : isIdentifier test.1 = true)
    (hlabel : isIdentifier test.2 = true) (rest : Text) :
    scanLabelTest (writeLabelTest test ++ rest) = some (test, rest) := by
  have htext : writeLabelTest test ++ rest =
      "label(".toList ++ (test.1 ++ (") = '".toList ++ (test.2 ++ (['\''] ++ rest)))) := by
    unfold writeLabelTest
    simp
  have hname : scanName (test.1 ++ (") = '".toList ++ (test.2 ++ (['\''] ++ rest)))) =
      some (test.1, _) := scanName_append hvar rfl
  have hname' : scanName (test.2 ++ (['\''] ++ rest)) = some (test.2, _) :=
    scanName_append hlabel rfl
  simp only [htext, scanLabelTest, Option.bind_eq_bind, after?_append, Option.bind_some, hname,
    hname']

theorem scanLabelTests_labelCondition {var : Text} {labels : List Text}
    (hvar : isIdentifier var = true) (hlabels : ∀ label ∈ labels, isIdentifier label = true)
    (hne : labels ≠ []) :
    scanLabelTests (labelCondition var labels) =
      some (labels.map fun label => (var, label), []) := by
  have hread : ∀ test ∈ labels.map fun label => (var, label), ∀ t,
      True → scanLabelTest (writeLabelTest test ++ t) = some (test, t) := by
    rintro _ htest t -
    obtain ⟨label, hlabel, rfl⟩ := List.mem_map.mp htest
    exact scanLabelTest_write hvar (hlabels label hlabel) t
  have hlist : listOf (Text.after? " OR ") scanLabelTest
      (Text.separated " OR " ((labels.map fun label => (var, label)).map writeLabelTest) ++
        [')']) = some (labels.map fun label => (var, label), [')']) :=
    listOf_append writeLabelTest " OR " (fun _ => True) (List.map_eq_nil_iff.not.mpr hne) hread
      (by decide) (fun _ => trivial) (fun _ _ _ => after?_append _ _) trivial rfl
  have htext : labelCondition var labels = ['('] ++ (Text.separated " OR "
      ((labels.map fun label => (var, label)).map writeLabelTest) ++ [')']) := by
    rw [List.map_map]
    show Text.joined ["(", Text.separated " OR "
      (labels.map (writeLabelTest ∘ fun label => (var, label))), ")"] = _
    simp
  have hclose : Text.after? [')'] [')'] = some [] := rfl
  simp only [htext, scanLabelTests, Option.bind_eq_bind, after?_append, Option.bind_some, hlist,
    hclose]

theorem hasLabel_iff_tested {d : EdgeDetail} {var : Text} (hvar : d.var = some var) :
    (∃ test ∈ d.labels.map fun label => (var, label), HasLabel env test) ↔ d.Tested env := by
  constructor
  · rintro ⟨_, htest, e, he, hlabel⟩ name hname
    obtain ⟨label, hmem, rfl⟩ := List.mem_map.mp htest
    rw [hvar] at hname
    cases hname
    exact ⟨e, he, hlabel ▸ hmem⟩
  · intro h
    obtain ⟨e, he, hlabel⟩ := h var hvar
    exact ⟨(var, G.label e), List.mem_map_of_mem hlabel, e, he, rfl⟩

theorem predicates_hold_iff {predicates : List Text} {details : List EdgeDetail}
    (h : List.Forall₂ (fun predicate d => ∃ var ∈ d.var, predicate = labelCondition var d.labels)
      predicates details)
    (hlegal : ∀ d ∈ details, d.Legal ∧ d.labels ≠ []) :
    (∀ predicate ∈ predicates, ∃ tests, scanLabelTests predicate = some (tests, []) ∧
      ∃ test ∈ tests, HasLabel env test) ↔ ∀ d ∈ details, d.Tested env := by
  induction h with
  | nil => simp
  | cons hpredicate _ ih =>
    obtain ⟨var, hvar, rfl⟩ := hpredicate
    rw [List.forall_mem_cons] at hlegal
    obtain ⟨⟨hd, hne⟩, hmore⟩ := hlegal
    have hread := scanLabelTests_labelCondition (hd.var var hvar) hd.labels hne
    rw [List.forall_mem_cons, List.forall_mem_cons, ih hmore, hread, ← hasLabel_iff_tested hvar]
    refine and_congr_left fun _ => ⟨?_, fun htest => ⟨_, rfl, htest⟩⟩
    rintro ⟨_, ⟨⟩, htest⟩
    exact htest

/-- A clause matches what its paths match, with the nodes that have an alias and no label taken
as twins, as long as no edge with a hop suffix has lost labels. With such an edge it matches
nothing. -/
theorem MatchClause.matches_iff {s rest : Text} {paths : List PathPattern} {clause : MatchClause}
    (h : scanPaths s = some (paths, rest)) (hclause : ofPaths paths = .ok clause)
    (G : PropertyGraph) (rule : List G.Edge → Prop) (env : Binding G) :
    clause.Matches rule env ↔ G.Matches rule env paths ∧
      (∀ n ∈ paths.flatMap PathPattern.nodes, n.IsTwin env) ∧
      ∀ d ∈ edgeDetails paths, d.relabelled (offersChoice paths) ≠ d → d.hops = none := by
  obtain ⟨-, hlegal⟩ := finds_scanPaths s paths rest h
  obtain ⟨hread, -, hpredicates⟩ := (ofPaths_scanned h).2 clause hclause
  have hlabels : ∀ d ∈ (edgeDetails paths).filter fun d => d.relabelled (offersChoice paths) ≠ d,
      d.Legal ∧ d.labels ≠ [] := by
    intro d hd
    obtain ⟨hd, hlost⟩ := List.mem_filter.mp hd
    refine ⟨legal_edgeDetails hlegal d hd, fun hnil => of_decide_eq_true hlost ?_⟩
    rw [EdgeDetail.relabelled, hnil, ite_self, ← hnil]
  have hlost : (∀ d ∈ (edgeDetails paths).filter fun d => d.relabelled (offersChoice paths) ≠ d,
      d.Tested env) ↔ ∀ d ∈ edgeDetails paths, d.Lost (offersChoice paths) → d.Tested env := by
    simp only [List.mem_filter, decide_eq_true_eq, and_imp]
    rfl
  rw [Matches, hread, predicates_hold_iff hpredicates hlabels, hlost]
  constructor
  · rintro ⟨_, ⟨⟩, ⟨runs, hruns, hrule⟩, htested⟩
    obtain ⟨hruns, htwins, hhops⟩ := forall₂_rewritten.mp ⟨hruns, htested⟩
    exact ⟨⟨runs, hruns, hrule⟩, htwins, hhops⟩
  · rintro ⟨⟨runs, hruns, hrule⟩, htwins, hhops⟩
    obtain ⟨hruns, htested⟩ := forall₂_rewritten.mpr ⟨hruns, htwins, hhops⟩
    exact ⟨_, rfl, ⟨runs, hruns, hrule⟩, htested⟩

def floors : PropertyGraph where
  Vertex := Nat
  Edge := Bool
  labels _ := [twinLabel]
  label e := if e then "in" else "has"
  source e := if e then 1 else 0
  target e := if e then 2 else 1

/-- `(a)-[R:has|feeds]->(b)-[S:in]->(c)`, perhaps with a hop suffix behind the last label. -/
def floorPaths (hops : Option Text) : List PathPattern :=
  [⟨⟨some "a", none⟩, [(⟨.outgoing, some ⟨some "R", ["has", "feeds"], none⟩⟩, ⟨some "b", none⟩),
    (⟨.outgoing, some ⟨some "S", ["in"], hops⟩⟩, ⟨some "c", none⟩)]⟩]

def floorBinding (value : floors.Value) : Binding floors := fun name =>
  if name = ['a'] then some (.vertex (0 : Nat)) else if name = ['b'] then some (.vertex (1 : Nat))
  else if name = ['c'] then some (.vertex (2 : Nat)) else if name = ['R'] then some (.edge false)
  else if name = ['S'] then some value else none

theorem matches_floorPaths {hops : Option Text} {value : floors.Value}
    (h : EdgeDetail.Fits (floorBinding value) ⟨some "S", ["in"], hops⟩ [true]) :
    floors.Matches List.Nodup (floorBinding value) (floorPaths hops) := by
  have hnode : ∀ {var : Text} {v : Nat}, floorBinding value var = some (.vertex v) →
      NodePattern.Fits (floorBinding value) ⟨some var, none⟩ v := by
    intro var v hvar
    exact ⟨by rintro _ ⟨⟩; exact hvar, by simp⟩
  have hfirst : EdgeDetail.Fits (floorBinding value) ⟨some "R", ["has", "feeds"], none⟩
      [false] := by
    refine ⟨fun _ => List.forall_mem_singleton.mpr List.mem_cons_self,
      fun _ => ⟨false, rfl, ?_⟩, by simp⟩
    rintro _ ⟨⟩
    rfl
  have hstep : ∀ e : Bool, Walk .outgoing (floors.source e) [e] (floors.target e) := fun e =>
    .cons (G := floors) (.forward (G := floors) e Direction.noConfusion) (.nil _)
  refine ⟨[[false] ++ ([true] ++ [])], .cons ⟨(0 : Nat), hnode rfl, ?_⟩ .nil, ?nodup⟩
  case nodup =>
    change ([false, true] : List Bool).Nodup
    decide
  exact .cons hfirst (hstep false) (hnode rfl) (.cons h (hstep true) (hnode rfl) (.nil _))

theorem twins_floorPaths (hops : Option Text) (value : floors.Value) :
    ∀ n ∈ (floorPaths hops).flatMap PathPattern.nodes, n.IsTwin (floorBinding value) := by
  have htwin : ∀ {var : Text} {v : Nat}, floorBinding value var = some (.vertex v) →
      NodePattern.IsTwin (floorBinding value) ⟨some var, none⟩ := by
    rintro var v hvar - _ ⟨⟩
    exact ⟨v, hvar, List.mem_singleton_self twinLabel⟩
  have hnodes : (floorPaths hops).flatMap PathPattern.nodes =
      [⟨some "a", none⟩, ⟨some "b", none⟩, ⟨some "c", none⟩] := rfl
  rw [hnodes, List.forall_mem_cons, List.forall_mem_cons, List.forall_mem_singleton]
  exact ⟨htwin rfl, htwin rfl, htwin rfl⟩

/-- Without hops the labels of both edges become conditions that a match fulfils. With hops on one
of them no binding is left. -/
theorem floors_match :
    (∃ clause, MatchClause.ofPaths (floorPaths none) = .ok clause ∧
      clause.pattern = "(a:Twin)-[R]->(b:Twin)-[S]->(c:Twin)".toList ∧
      scanPaths "(a)-[R:has|feeds]->(b)-[S:in]->(c)" = some (floorPaths none, []) ∧
      clause.Matches List.Nodup (floorBinding (.edge true))) ∧
    ∃ clause, MatchClause.ofPaths (floorPaths (some "*1..2")) = .ok clause ∧
      ∀ (G : PropertyGraph) (rule : List G.Edge → Prop) (env : Binding G),
        ¬clause.Matches rule env := by
  have hread : scanPaths "(a)-[R:has|feeds]->(b)-[S:in]->(c)" = some (floorPaths none, []) := by
    decide +kernel
  have hreadHops : scanPaths "(a)-[R:has|feeds]->(b)-[S:in*1..2]->(c)" =
      some (floorPaths (some "*1..2"), []) := by decide +kernel
  refine ⟨⟨_, rfl, by decide +kernel, hread, ?_⟩, _, rfl, fun G rule env h => ?_⟩
  · refine (MatchClause.matches_iff hread rfl _ _ _).mpr
      ⟨matches_floorPaths ?_, ?_, by decide +kernel⟩
    · refine ⟨fun _ => List.forall_mem_singleton.mpr List.mem_cons_self,
        fun _ => ⟨true, rfl, ?_⟩, by simp⟩
      rintro _ ⟨⟩
      rfl
    · exact twins_floorPaths _ _
  · obtain ⟨-, -, hhops⟩ := (MatchClause.matches_iff hreadHops rfl G rule env).mp h
    cases hhops ⟨some "S", ["in"], some "*1..2"⟩ (by decide +kernel) (by decide +kernel)

theorem run_is_not_matched :
    scanPaths "(a)-[R:has|feeds]->(b)-[S:in*1..2]->(c)" =
      some (floorPaths (some "*1..2"), []) ∧
    floors.Matches List.Nodup (floorBinding (.run [true])) (floorPaths (some "*1..2")) ∧
    (∀ n ∈ (floorPaths (some "*1..2")).flatMap PathPattern.nodes,
      n.IsTwin (floorBinding (.run [true]))) ∧
    ∃ clause, MatchClause.ofPaths (floorPaths (some "*1..2")) = .ok clause ∧
      ¬clause.Matches List.Nodup (floorBinding (.run [true])) := by
  refine ⟨by decide +kernel, matches_floorPaths ?_, twins_floorPaths _ _, _, rfl, ?_⟩
  · refine ⟨fun _ => List.forall_mem_singleton.mpr List.mem_cons_self, by simp, ?_⟩
    rintro _ ⟨⟩
    refine ⟨by unfold Spans; decide +kernel, ?_⟩
    rintro _ ⟨⟩
    rfl
  · rintro ⟨-, -, -, htests⟩
    obtain ⟨tests, hread, test, htest, e, he, -⟩ := htests "(label(S) = 'in')" (by decide +kernel)
    have htests : scanLabelTests "(label(S) = 'in')" = some ([(['S'], ['i', 'n'])], []) := by
      decide +kernel
    rw [htests] at hread
    cases hread
    rw [List.mem_singleton.mp htest] at he
    cases he

end TwinGraph
