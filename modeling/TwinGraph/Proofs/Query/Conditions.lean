import TwinGraph.Proofs.Query.Clauses
import TwinGraph.Proofs.Query.Parts

/-! The string literals of the conditions on their way from the text of a query to Cypher: they are
all there, in order, but each run of blanks in them has become one space. -/
namespace TwinGraph.Query

theorem writes_conditionText {graph : Text} (hgraph : Quoteless graph) {var : Option Text}
    (hvar : ∀ v ∈ var, IsPath v) {s out : Text} (hs : Closed s)
    (h : conditionText graph var s = .ok out) :
    ∃ parts, parts.filter isString = literals s ∧ Item.Writes parts out := by
  unfold conditionText readItems at h
  split at h
  case h_2 => cases h
  case h_1 items hitems =>
    cases h
    have hneat := Item.neat_ofText? hs hitems
    have hliterals : (Item.literalsAll items).filter isString = literals s := by
      rw [Item.literals_ofText? hitems, Token.literals_ofText]
    refine ⟨Item.literalsAll items, hliterals, ?_⟩
    have hall : ∀ items' : List Item, Item.literalsAll items' = Item.literalsAll items →
        (∀ item ∈ items', Item.Neat IsPath item) → Item.Writes (Item.literalsAll items)
          (Item.renderAll
            (Item.bracketAll (Item.bindModelTestAll graph var (Item.nativeAll items')))) := by
      intro items' heq hitems'
      rw [← heq, ← Item.literals_nativeAll items',
        ← Item.literals_bindModelTestAll graph var (Item.nativeAll items'),
        ← Item.literals_bracketAll]
      refine Item.writes_renderAll fun item hitem => Item.writes_render ?_
      rw [Item.bracketAll_eq_map, Item.bindModelTestAll_eq_map, Item.nativeAll_eq_flatMap,
        List.map_map, List.mem_map] at hitem
      obtain ⟨part, hpart, rfl⟩ := hitem
      obtain ⟨source, hsource, hpart⟩ := List.mem_flatMap.mp hpart
      exact Item.neat_bracket (Item.neat_bindModelTest hgraph hvar
        (Item.neat_native (hitems' source hsource) part hpart))
    cases var with
    | none => exact hall items rfl hneat
    | some var =>
      have hqualified : ∀ item ∈ Item.qualifyAll var items, Item.Neat IsPath item := by
        rw [Item.qualifyAll_eq_map, List.forall_mem_map]
        exact fun item hitem => Item.neat_qualify (hvar var rfl) (hneat item hitem)
      exact hall _ (Item.literals_qualifyAll var items) hqualified

theorem isPath_implicitAlias {defaults : Bool} {source : Source} {scope : Scope}
    (h : Scope.ofSource defaults source = .ok scope) : ∀ v ∈ scope.implicitAlias, IsPath v := by
  have hnone : scope.implicitAlias = none → ∀ v ∈ scope.implicitAlias, IsPath v := by
    intro hnone v hv
    rw [hnone] at hv
    cases hv
  cases source with
  | collection kind var =>
    cases var with
    | some var =>
      cases h
      exact hnone rfl
    | none =>
      rw [Scope.ofSource] at h
      split at h
      · cases h
        rintro v ⟨⟩
        cases kind <;> exact List.forall_mem_singleton.mpr (by decide)
      · cases h
  | paths patterns =>
    obtain ⟨clause, -, h⟩ := Outcome.bind_eq_ok.mp h
    cases h
    exact hnone rfl
  | joins var links =>
    cases h
    exact hnone rfl

theorem cypher_eq_ok {graph text : Text} {q : Query} (h : cypher graph q = .ok text) :
    ∃ (projections : Text) (scope : Scope) (conditions : Option Text),
      conditionText? graph scope.implicitAlias q.conditions = .ok conditions ∧
      (∀ v ∈ scope.implicitAlias, IsPath v) ∧
      text = render scope.clause.pattern (whereText scope.clause.predicates conditions)
        projections q.top := by
  obtain ⟨projections, -, h⟩ := Outcome.bind_eq_ok.mp h
  obtain ⟨scope, hscope, h⟩ := Outcome.bind_eq_ok.mp h
  obtain ⟨conditions, hconditions, h⟩ := Outcome.bind_eq_ok.mp h
  cases h
  exact ⟨projections, scope, conditions, hconditions, isPath_implicitAlias hscope, rfl⟩

theorem conditionText?_some {graph : Text} {var : Option Text} {s : Text} {result : Option Text}
    (h : conditionText? graph var (some s) = .ok result) :
    ∃ out, result = some out ∧ conditionText graph var s = .ok out := by
  obtain ⟨out, hout, h⟩ := Outcome.bind_eq_ok.mp h
  cases h
  exact ⟨out, rfl, hout⟩

theorem quoteless_of_isIdentifier {name : Text} (h : isIdentifier name = true) :
    Quoteless name := by
  cases name with
  | nil => cases h
  | cons c cs =>
    rw [isIdentifier, Bool.and_eq_true, List.all_eq_true] at h
    exact List.forall_mem_cons.mpr ⟨not_quote_of_isNameChar (isNameChar_of_isNameStart h.1),
      fun d hd => not_quote_of_isNameChar (h.2 d hd)⟩

theorem isString_of_mem_literals {s l : Text} (h : l ∈ literals s) : isString l = true := by
  obtain ⟨q, hq, ⟨t, rfl⟩, -⟩ := mark_ends (List.mem_filter.mp h).1
  exact hq

/-- The conditions are the last part of the query's text, respaced, and what became of them stands
behind WHERE in the Cypher text. -/
structure Translates (s text conditions : Text) (top : Option Nat) (back out : Text) : Prop where
  source : ∃ front, s = front ++ back ∧ literals s = literals front ++ literals back
  respaced : back.respaced = conditions
  target : ∃ pattern predicates projections,
    text = render pattern (whereText predicates (some out)) projections top

/-- The literals of the conditions come back in the same order, each respaced. If no quote is open
they are literals there as well, and they come back as they were exactly if respacing changes none
of them. -/
theorem literals_of_toCypher {graph s text : Text} (hgraph : isIdentifier graph = true)
    (h : toCypher graph s = .ok text) :
    ∃ q, Query.read s.respaced = .ok q ∧ ∀ conditions, q.conditions = some conditions →
      ∃ back out, Translates s text conditions q.top back out ∧
        Holds ((literals back).map Text.respaced) out ∧
        (Closed back → ((literals back).map Text.respaced).Sublist (literals out) ∧
          ((literals back).Sublist (literals out) ↔ ∀ l ∈ literals back, l.respaced = l)) := by
  obtain ⟨q, hread, h⟩ := Outcome.bind_eq_ok.mp h
  refine ⟨q, hread, fun conditions hq => ?_⟩
  obtain ⟨projections, scope, result, hresult, halias, rfl⟩ := cypher_eq_ok h
  rw [hq] at hresult
  obtain ⟨out, rfl, hout⟩ := conditionText?_some hresult
  obtain ⟨front', blanks, hsplit, hfront', hblanks, hne, hhead, hlast⟩ := read_conditions hread hq
  obtain ⟨front, back, hs, hback, hfront⟩ :=
    respaced_eq_append hsplit hblanks hne hhead hlast hfront'
  have hliterals : literals conditions = (literals back).map Text.respaced := by
    rw [← hback, literals_respaced]
  refine ⟨back, out, ⟨⟨front, hs, ?_⟩, hback, ⟨_, _, _, rfl⟩⟩, ?_, fun hclosed => ?_⟩
  · rw [hs, literals_append hfront]
  · rw [← hliterals]
    exact holds_conditionText hout
  · obtain ⟨parts, hparts, hwrites⟩ :=
      writes_conditionText (quoteless_of_isIdentifier hgraph) halias (hback ▸ hclosed.respaced) hout
    have hsublist : ((literals back).map Text.respaced).Sublist (literals out) := by
      rw [← hliterals, ← hparts]
      exact hwrites.sublist
    refine ⟨hsublist, fun hsame l hl => ?_, fun hsame => ?_⟩
    · rcases hwrites.regular l (hsame.subset hl) with hmem | hregular
      · have hmoved : l ∈ (literals back).map Text.respaced := by
          rw [← hliterals, ← hparts]
          exact List.mem_filter.mpr ⟨hmem, isString_of_mem_literals hl⟩
        obtain ⟨m, hm, rfl⟩ := List.mem_map.mp hmoved
        exact respaced_mark (List.mem_filter.mp hm).1
      · exact hregular
    · have hid : (literals back).map Text.respaced = literals back := by
        rw [List.map_congr_left hsame, List.map_id']
      rwa [hid] at hsublist

def spacedQuery : Text := "SELECT * FROM DIGITALTWINS T WHERE T.name = 'a  b'"

def spacedText : Text := "MATCH (T:Twin) WHERE T.name = 'a b' RETURN *"

theorem spaced_name_comes_out : isIdentifier "testgraph" = true ∧
    toCypher "testgraph" spacedQuery = .ok spacedText ∧
    ∃ q, Query.read spacedQuery.respaced = .ok q ∧ ∀ conditions, q.conditions = some conditions →
      ∃ back out, Translates spacedQuery spacedText conditions q.top back out ∧
        Holds ((literals back).map Text.respaced) out := by
  have h : toCypher "testgraph" spacedQuery = .ok spacedText := by decide +kernel
  obtain ⟨q, hread, hall⟩ := literals_of_toCypher (by decide) h
  refine ⟨by decide, h, q, hread, fun conditions hq => ?_⟩
  obtain ⟨back, out, htranslates, hholds, -⟩ := hall conditions hq
  exact ⟨back, out, htranslates, hholds⟩

theorem blanks_of_literal_are_lost : literals spacedQuery = ["'a  b'".toList] ∧
    toCypher "testgraph" spacedQuery = .ok spacedText ∧ ¬ Holds ["'a  b'".toList] spacedText := by
  refine ⟨by decide +kernel, by decide +kernel, fun hholds => ?_⟩
  have hinfix := hholds.isInfix _ List.mem_cons_self
  exact absurd hinfix (by decide +kernel)

end TwinGraph.Query
