import TwinGraph.Proofs.Query.Conditions
import TwinGraph.Proofs.Query.Enclosing
import TwinGraph.Proofs.Query.Matching

/-! The label conditions of a pattern beside the conditions of the query. What the conditions become
closes its own quotes and parentheses, so between parentheses it stays one group, and nothing in it
gets beside the label conditions. -/
namespace TwinGraph

open Query Scan

/-! ### What conditions become -/

namespace Token

/-- A parenthesis, or a token in which all quotes and parentheses are closed. -/
def Sealed : Token → Prop
  | opening | closing => True
  | word s | literal s | space s | symbol s => Enclosed s

theorem sealed_of_mem_ofText {s : Text} (hs : Closed s) {t : Token} (ht : t ∈ ofText s) :
    t.Sealed := by
  have hneat := neat_ofText hs t ht
  obtain ⟨front, rest, hscan⟩ := exists_scan_of_mem ht
  cases t with
  | opening | closing => trivial
  | word w => exact (scanPath_isPath (scanPath_of_scan hscan)).enclosed
  | literal l =>
    rcases literal_of_scan hscan with hstring | hnumber
    · obtain ⟨q, s', body, hq, rfl, rfl, hclose⟩ := scanString_eq_some hstring
      exact enclosed_string hq (closeQuote_body hclose)
    · exact enclosed_plain (scanNumber_readsText hnumber).2.2 (scanNumber_parenless hnumber)
  | space gaps =>
    refine enclosed_plain hneat fun c hc => ?_
    exact not_isParen_of ((scanSpace_eq_some (space_of_scan hscan)).2.1 c hc) (by decide) (by decide)
  | symbol x => exact enclosed_plain hneat (scanOperator_parenless (symbol_of_scan hscan))

end Token

namespace Item

def Sealed (item : Item) : Prop := ∀ t ∈ item.tokens, t.Sealed

theorem sealedAll_iff {items : List Item} :
    (∀ t ∈ tokensAll items, t.Sealed) ↔ ∀ item ∈ items, item.Sealed := by
  rw [tokensAll_eq_flatMap]
  exact List.forall_mem_flatMap

theorem sealed_word {w : Text} (h : Enclosed w) : (word w).Sealed :=
  List.forall_mem_singleton.mpr h

theorem sealed_symbol {s : Text} (h : Enclosed s) : (symbol s).Sealed :=
  List.forall_mem_singleton.mpr h

theorem sealed_call {name : Text} {args : List Item} :
    (call name args).Sealed ↔ Enclosed name ∧ ∀ item ∈ args, item.Sealed := by
  rw [Sealed, tokens, List.forall_mem_cons, List.forall_mem_cons, List.forall_mem_append,
    sealedAll_iff]
  simp [Token.Sealed]

theorem sealed_group {items : List Item} :
    (group items).Sealed ↔ ∀ item ∈ items, item.Sealed := by
  rw [Sealed, tokens, List.forall_mem_cons, List.forall_mem_append, sealedAll_iff]
  simp [Token.Sealed]

theorem enclosed_renderAll {items : List Item} (h : ∀ item ∈ items, Enclosed item.render) :
    Enclosed (renderAll items) := by
  induction items with
  | nil => exact enclosed_plain (by decide) (by decide)
  | cons item items ih =>
    rw [List.forall_mem_cons] at h
    rw [renderAll]
    exact h.1.append (ih h.2)

/-- The parentheses of a tree are closed, so only its parts matter. -/
theorem Sealed.render {item : Item} (h : item.Sealed) : Enclosed item.render := by
  induction item using nested_induction with
  | leaf x hx =>
    cases x with
    | word | literal | space | symbol => exact h _ List.mem_cons_self
    | call | group => cases hx
  | call name args ih =>
    obtain ⟨hname, hargs⟩ := sealed_call.mp h
    rw [Item.render, List.append_assoc]
    exact hname.append (enclosed_renderAll fun x hx => ih x hx (hargs x hx)).group
  | group items ih =>
    rw [Item.render]
    exact (enclosed_renderAll fun x hx => ih x hx (sealed_group.mp h x hx)).group

theorem enclosed_operator {name operator : Text}
    (h : betweenOperator name = some operator ∨ nullTest name = some operator) :
    Enclosed (' ' :: operator) := by
  have hparenless : Parenless operator := forall_operator (by decide) (by decide) h
  exact enclosed_plain (List.forall_mem_cons.mpr ⟨by decide, quoteless_operator h⟩)
    (List.forall_mem_cons.mpr ⟨by decide, hparenless⟩)

theorem Sealed.native {item : Item} (h : item.Sealed) : ∀ part ∈ item.native, part.Sealed := by
  induction item using nested_induction with
  | leaf x hx =>
    rw [native_leaf hx]
    exact List.forall_mem_singleton.mpr h
  | call name args ih =>
    obtain ⟨hname, hargs⟩ := sealed_call.mp h
    have hnative : ∀ part ∈ nativeAll args, part.Sealed := by
      rw [nativeAll_eq_flatMap]
      exact List.forall_mem_flatMap.mpr fun x hx => ih x hx (hargs x hx)
    rw [Item.native]
    refine forall_nativeCall (sealed_call.mpr ⟨hname, hnative⟩) hnative
      (fun operator hoperator => sealed_symbol ?_) fun test htest => sealed_symbol ?_
    · exact (enclosed_operator (Or.inl hoperator)).append (enclosed_plain (by decide) (by decide))
    · exact enclosed_operator (Or.inr htest)
  | group items ih =>
    rw [Item.native, List.forall_mem_singleton, sealed_group, nativeAll_eq_flatMap]
    exact List.forall_mem_flatMap.mpr fun x hx => ih x hx (sealed_group.mp h x hx)

theorem Sealed.bindModelTest {graph : Text} (hgraph : Enclosed graph) {item : Item}
    (h : item.Sealed) : (item.bindModelTest graph none).Sealed := by
  induction item using nested_induction with
  | leaf x hx => rwa [bindModelTest_leaf hx]
  | call name args ih =>
    obtain ⟨hname, hargs⟩ := sealed_call.mp h
    have hbound : ∀ x ∈ args.map (Item.bindModelTest graph none), x.Sealed :=
      List.forall_mem_map.mpr fun x hx => ih x hx (hargs x hx)
    have htest : Enclosed (Text.joined [graph, ".is_of_model"]) :=
      enclosed_flatten (by simpa using ⟨hgraph, enclosed_plain (by decide) (by decide)⟩)
    rw [bindModelTest_call]
    split
    · exact sealed_call.mpr ⟨htest, hbound⟩
    · exact sealed_call.mpr ⟨hname, hbound⟩
  | group items ih =>
    rw [Item.bindModelTest, bindModelTestAll_eq_map, sealed_group]
    exact List.forall_mem_map.mpr fun x hx => ih x hx (sealed_group.mp h x hx)

theorem enclosed_bracketPath {path : Text} (h : IsPath path) : Enclosed (bracketPath path) :=
  bracketPath_induction Enclosed.append IsPath.enclosed
    (fun hs => enclosed_string (by decide) (closeQuote_path hs))
    (enclosed_plain (by decide) (by decide)) (enclosed_plain (by decide) (by decide)) h

theorem Sealed.bracket {item : Item} (h : item.Sealed) (hneat : Neat IsPath item) :
    item.bracket.Sealed := by
  induction hneat with
  | word hw =>
    rw [Item.bracket]
    exact sealed_word (enclosed_bracketPath hw)
  | literal | space | symbol =>
    rw [Item.bracket]
    exact h
  | call _ _ ih =>
    obtain ⟨hname, hargs⟩ := sealed_call.mp h
    rw [Item.bracket, bracketAll_eq_map, sealed_call]
    exact ⟨hname, List.forall_mem_map.mpr fun x hx => ih x hx (hargs x hx)⟩
  | group _ ih =>
    rw [Item.bracket, bracketAll_eq_map, sealed_group]
    exact List.forall_mem_map.mpr fun x hx => ih x hx (sealed_group.mp h x hx)

theorem sealed_ofText? {s : Text} (hs : Closed s) {items : List Item} (h : ofText? s = some items) :
    ∀ item ∈ items, item.Sealed := by
  rw [← sealedAll_iff, tokensAll_ofText? h]
  exact fun t ht => Token.sealed_of_mem_ofText hs ht

end Item

namespace Query

open Item

/-- What closed conditions become is closed, in its quotes and in its parentheses. -/
theorem enclosed_conditionText {graph s out : Text} (hgraph : Enclosed graph) (hs : Closed s)
    (h : conditionText graph none s = .ok out) : Enclosed out := by
  obtain ⟨items, hread, -⟩ := Outcome.bind_eq_ok.mp h
  have hitems := ofText?_of_readItems hread
  rw [conditionText_inScope graph (by simp) hitems] at h
  cases h
  rw [bindModelTestAll_eq_map, nativeAll_eq_flatMap]
  refine enclosed_renderAll (List.forall_mem_map.mpr fun x hx => ?_)
  obtain ⟨bracketed, hbracketed, hx⟩ := List.mem_flatMap.mp hx
  obtain ⟨item, hitem, rfl⟩ := List.mem_map.mp hbracketed
  have hsealed : (item.inScope none).Sealed :=
    (sealed_ofText? hs hitems item hitem).bracket (neat_ofText? hs hitems item hitem)
  exact ((hsealed.native x hx).bindModelTest hgraph).render

theorem closed_conditions {s conditions : Text} {q : Query} (hs : Closed s)
    (hread : Query.read s.respaced = .ok q) (hq : q.conditions = some conditions) :
    Closed conditions := by
  obtain ⟨front, blanks, hsplit, hfront, hblanks, -⟩ := read_conditions hread hq
  have hall : marks s.respaced = marks front ++ marks conditions := by
    rw [hsplit, marks_append_right _ fun c hc => not_quote_of_isBlank (hblanks c hc),
      marks_append hfront]
  have hclosed := hs.respaced
  rw [Closed, hall, List.forall_mem_append] at hclosed
  exact hclosed.2

end Query

/-! ### The label conditions -/

theorem isPath_of_isIdentifier {name : Text} (h : isIdentifier name = true) : IsPath name :=
  fun c hc => isPathChar_of_isNameChar (isNameChar_of_mem h c hc)

theorem enclosed_separated {sep : Text} (hsep : Enclosed sep) {texts : List Text}
    (h : ∀ t ∈ texts, Enclosed t) : Enclosed (Text.separated sep texts) := by
  induction texts with
  | nil =>
    have hempty : Enclosed [] := enclosed_plain (by decide) (by decide)
    exact hempty
  | cons t texts ih =>
    rw [List.forall_mem_cons] at h
    cases texts with
    | nil =>
      rw [Text.separated, List.intercalate_singleton]
      exact h.1
    | cons next texts =>
      rw [Text.separated, List.intercalate_cons_cons, List.append_assoc]
      exact h.1.append (hsep.append (ih h.2))

/-- A label condition is a text between parentheses, closed in itself. -/
theorem exists_grouped_labelCondition {var : Text} {labels : List Text}
    (hvar : isIdentifier var = true) (hlabels : ∀ label ∈ labels, isIdentifier label = true) :
    ∃ body, labelCondition var labels = Item.grouped body ∧ Enclosed body := by
  refine ⟨_, rfl, enclosed_separated (enclosed_plain (by decide) (by decide)) ?_⟩
  rw [List.forall_mem_map]
  intro label hlabel
  have htext : Text.joined ["label(", var, ") = '", label, "'"] =
      "label".toList ++ ('(' :: var ++ [')']) ++ " = ".toList ++ '\'' :: (label ++ ['\'']) := by
    simp [Text.joined]
  have hname : Enclosed "label".toList := enclosed_plain (by decide) (by decide)
  have hequals : Enclosed " = ".toList := enclosed_plain (by decide) (by decide)
  have hquoted : Enclosed ('\'' :: (label ++ ['\''])) :=
    enclosed_string (by decide) (closeQuote_path (isPath_of_isIdentifier (hlabels label hlabel)))
  rw [htext]
  exact ((hname.append (isPath_of_isIdentifier hvar).enclosed.group).append hequals).append hquoted

theorem exists_grouped_predicate {paths : List PathPattern} (h : ∀ p ∈ paths, p.Legal)
    {clause : MatchClause} (hclause : MatchClause.ofPaths paths = .ok clause) :
    ∀ p ∈ clause.predicates, ∃ body, p = Item.grouped body ∧ Enclosed body := by
  have hdetails := legal_edgeDetails h
  rw [MatchClause.ofPaths_eq] at hclause
  split at hclause
  · cases hclause
  · cases hclause
    intro p hp
    dsimp only at hp
    split at hp
    · obtain ⟨d, hd, hcondition⟩ := List.mem_filterMap.mp hp
      obtain ⟨var, hvar, hlabels⟩ := Option.bind_eq_some_iff.mp hcondition
      split at hlabels
      · cases hlabels
      · cases hlabels
        exact exists_grouped_labelCondition ((hdetails d hd).var var hvar) (hdetails d hd).labels
    · cases hp

namespace Source

theorem paths_of_scan {s rest : Text} {paths : List PathPattern}
    (h : Source.scan s = some (.paths paths, rest)) :
    ∃ front left, scanPaths front = some (paths, left) := by
  have hcollection : ∀ {kind s}, scanCollection kind s ≠ some (.paths paths, rest) := by
    intro kind s hread
    simp [scanCollection, Option.bind_eq_some_iff] at hread
  have hjoins : ∀ {s}, scanJoins s ≠ some (.paths paths, rest) := by
    intro s hread
    simp [scanJoins, Option.bind_eq_some_iff] at hread
  unfold Source.scan at h
  split at h
  · exact absurd h hcollection
  · obtain ⟨s', -, h⟩ := Option.bind_eq_some_iff.mp h
    rcases Option.or_eq_some_iff.mp h with h | ⟨-, h⟩
    · rcases Option.or_eq_some_iff.mp h with h | ⟨-, h⟩
      · simp only [scanMatch, Option.bind_eq_bind, Option.bind_eq_some_iff] at h
        obtain ⟨s₁, -, s₂, -, ⟨patterns, left⟩, hpatterns, h⟩ := h
        dsimp only at h
        split at h
        · cases h
          exact ⟨_, left, hpatterns⟩
        · cases h
      · exact absurd h hjoins
    · exact absurd h hcollection

end Source

theorem Query.legal_paths {s : Text} {q : Query} (h : Query.read s = .ok q)
    {paths : List PathPattern} (hq : q.source = .paths paths) : ∀ p ∈ paths, p.Legal := by
  obtain ⟨⟨top, projections, s₁⟩, -, h⟩ := Outcome.bind_eq_ok.mp h
  obtain ⟨⟨source, s₂⟩, hsource, h⟩ := Outcome.bind_eq_ok.mp h
  obtain ⟨conditions, -, h⟩ := Outcome.bind_eq_ok.mp h
  cases h
  obtain rfl : source = .paths paths := hq
  unfold Source.read at hsource
  split at hsource
  · cases hsource
  · dsimp only at hsource
    split at hsource
    · next hscan =>
      cases hsource
      obtain ⟨front, left, hpaths⟩ := Source.paths_of_scan hscan
      exact (finds_scanPaths front paths left hpaths).2
    · cases hsource

/-! ### Both together -/

namespace Item

theorem separated_concat (sep : Text) {texts : List Text} (hne : texts ≠ []) (t : Text) :
    Text.separated sep (texts ++ [t]) = Text.separated sep texts ++ (sep ++ t) := by
  obtain ⟨first, more, rfl⟩ := List.exists_cons_of_ne_nil hne
  rw [List.cons_append, separated_eq, separated_eq, List.map_append, List.flatten_append,
    List.map_singleton, List.flatten_singleton, List.append_assoc]

theorem ofText?_grouped {s : Text} (hs : Closed s) {items : List Item}
    (h : ofText? s = some items) : ofText? (grouped s) = some [group items] := by
  have hsingle := ofText?_conjunction (.cons ⟨hs, h⟩ .nil)
  rwa [List.map_singleton, Text.separated, List.intercalate_singleton, conjunction,
    List.map_singleton, List.intercalate_singleton] at hsingle

theorem exists_groups {predicates : List Text}
    (h : ∀ p ∈ predicates, ∃ body, p = grouped body ∧ Enclosed body) :
    ∃ bodies groups, predicates = bodies.map grouped ∧
      List.Forall₂ (fun s items => Closed s ∧ ofText? s = some items) bodies groups := by
  induction predicates with
  | nil => exact ⟨[], [], rfl, .nil⟩
  | cons p predicates ih =>
    rw [List.forall_mem_cons] at h
    obtain ⟨body, rfl, hbody⟩ := h.1
    obtain ⟨items, hitems⟩ := (exists_ofText?_iff body).mpr hbody.balanced
    obtain ⟨bodies, groups, rfl, hgroups⟩ := ih h.2
    exact ⟨body :: bodies, items :: groups, rfl, .cons ⟨hbody.closed, hitems⟩ hgroups⟩

theorem word_of_mem_conjunction {w : Text} {groups : List (List Item)}
    (h : word w ∈ conjunction groups) : w = "AND" := by
  induction groups with
  | nil => cases h
  | cons items groups ih =>
    cases groups with
    | nil =>
      rw [conjunction, List.map_singleton, List.intercalate_singleton, List.mem_singleton] at h
      cases h
    | cons next groups =>
      rw [conjunction_cons_cons] at h
      simp only [List.mem_cons, reduceCtorEq, false_or, word.injEq] at h
      exact h.elim id ih

end Item

namespace Query

open Item

theorem enclosed_of_conditionText? {graph s w : Text} {q : Query} (hgraph : Enclosed graph)
    (hs : Closed s) (hread : Query.read s.respaced = .ok q)
    (h : conditionText? graph none q.conditions = .ok (some w)) : Enclosed w := by
  cases hq : q.conditions with
  | none =>
    rw [hq] at h
    cases h
  | some conditions =>
    rw [hq] at h
    obtain ⟨out, heq, hout⟩ := conditionText?_some h
    cases heq
    exact enclosed_conditionText hgraph (closed_conditions hs hread hq) hout

theorem whereText_grouped {bodies : List Text} (hne : bodies ≠ []) (w : Text) :
    whereText (bodies.map grouped) (some w) =
      some (Text.separated " AND " ((bodies ++ [w]).map grouped)) := by
  have hmap : bodies.map grouped ≠ [] := mt List.map_eq_nil_iff.mp hne
  rw [whereText, if_neg (by simpa using hne), List.map_append, List.map_singleton,
    separated_concat _ hmap]
  simp [Text.joined, grouped]

/-- What stands between the pattern and the result of a query for paths: nothing, the conditions of
the query, the label conditions, or, where there are both, one group for each label condition and one
for all the conditions of the query, with `AND` between each two. The name of the graph gets into the
conditions too, so nothing may be open in it; in an identifier nothing is. -/
theorem conditions_stay_grouped {graph s text : Text} (hgraph : Enclosed graph) (hs : Closed s)
    (h : toCypher graph s = .ok text) :
    ∃ q, Query.read s.respaced = .ok q ∧ ∀ paths, q.source = .paths paths →
      ∃ clause projections own between, MatchClause.ofPaths paths = .ok clause ∧
        projectionText graph q.projections = .ok projections ∧
        conditionText? graph none q.conditions = .ok own ∧
        text = render clause.pattern between projections q.top ∧
        (clause.predicates = [] → between = own) ∧
        (clause.predicates ≠ [] → own = none →
          between = some (Text.separated " AND " clause.predicates)) ∧
        ∀ w, clause.predicates ≠ [] → own = some w → ∃ t groups items, between = some t ∧
          List.Forall₂ (fun p inner => ofText? p = some [group inner]) clause.predicates groups ∧
          ofText? w = some items ∧ ofText? t = some (conjunction (groups ++ [items])) ∧
          ∀ v, word v ∈ conjunction (groups ++ [items]) → v = "AND" := by
  obtain ⟨q, hread, h⟩ := Outcome.bind_eq_ok.mp h
  refine ⟨q, hread, fun paths hpaths => ?_⟩
  obtain ⟨projections, hprojections, h⟩ := Outcome.bind_eq_ok.mp h
  obtain ⟨scope, hscope, h⟩ := Outcome.bind_eq_ok.mp h
  obtain ⟨own, hown, h⟩ := Outcome.bind_eq_ok.mp h
  rw [hpaths] at hscope
  obtain ⟨clause, hclause, hscope⟩ := Outcome.bind_eq_ok.mp hscope
  cases hscope
  cases h
  refine ⟨clause, projections, own, whereText clause.predicates own, hclause, hprojections, hown,
    rfl, fun hnone => ?_, fun hsome hnone => ?_, fun w hsome hw => ?_⟩
  · rw [hnone]
    cases own <;> rfl
  · rw [hnone, whereText, if_neg (by simpa using hsome)]
  · subst hw
    have hw : Enclosed w := enclosed_of_conditionText? hgraph hs hread hown
    obtain ⟨items, hitems⟩ := (exists_ofText?_iff w).mpr hw.balanced
    obtain ⟨bodies, groups, hbodies, hgroups⟩ :=
      exists_groups (exists_grouped_predicate (legal_paths hread hpaths) hclause)
    have hall := List.rel_append hgroups (.cons ⟨hw.closed, hitems⟩ .nil)
    rw [hbodies] at hsome ⊢
    refine ⟨_, groups, items, whereText_grouped (mt List.map_eq_nil_iff.mpr hsome) w, ?_, hitems,
      ofText?_conjunction hall, fun v => word_of_mem_conjunction⟩
    rw [List.forall₂_map_left_iff]
    exact hgroups.imp fun s items hread => ofText?_grouped hread.1 hread.2

def taggedPaths : List PathPattern :=
  [⟨⟨some "a", none⟩,
    [(⟨.outgoing, some ⟨some "R", ["has", "feeds"], none⟩⟩, ⟨some "b", none⟩)]⟩]

def taggedQuery : Text :=
  "SELECT a FROM DIGITALTWINS MATCH (a)-[R:has|feeds]->(b) WHERE a.n=1 OR STARTSWITH(b.k,')')"

def taggedText : Text :=
  "MATCH (a:Twin)-[R]->(b:Twin) WHERE (label(R) = 'has' OR label(R) = 'feeds') AND (a.n=1 OR b.k STARTS WITH ')') RETURN a"

/-- The second operand of `OR` and the parenthesis in the literal stay behind the label condition. -/
theorem tagged_paths_stay_grouped :
    Enclosed "g" ∧ Closed taggedQuery ∧ toCypher "g" taggedQuery = .ok taggedText ∧
    ∃ t labels items, taggedText = render "(a:Twin)-[R]->(b:Twin)" (some t) "a" none ∧
      ofText? "(label(R) = 'has' OR label(R) = 'feeds')" = some [group labels] ∧
      ofText? "a.n=1 OR b.k STARTS WITH ')'" = some items ∧
      ofText? t = some [group labels, .space " ", .word "AND", .space " ", group items] := by
  have hgraph : Enclosed "g" := enclosed_plain (by decide) (by decide)
  have hclosed : Closed taggedQuery := by decide +kernel
  have h : toCypher "g" taggedQuery = .ok taggedText := by decide +kernel
  have hread : Query.read taggedQuery.respaced =
      .ok ⟨none, "a", .paths taggedPaths, some "a.n=1 OR STARTSWITH(b.k,')')"⟩ := by decide +kernel
  have hclause : MatchClause.ofPaths taggedPaths =
      .ok ⟨"(a:Twin)-[R]->(b:Twin)", ["(label(R) = 'has' OR label(R) = 'feeds')"]⟩ := by
    decide +kernel
  have hown : conditionText? "g" none (some "a.n=1 OR STARTSWITH(b.k,')')".toList) =
      .ok (some "a.n=1 OR b.k STARTS WITH ')'".toList) := by decide +kernel
  have hprojections : projectionText "g" "a" = .ok "a" := by decide +kernel
  refine ⟨hgraph, hclosed, h, ?_⟩
  obtain ⟨q, hread', hall⟩ := conditions_stay_grouped hgraph hclosed h
  rw [hread] at hread'
  cases hread'
  obtain ⟨clause, projections, own, between, hclause', hprojections', hown', htext, -, -, hboth⟩ :=
    hall _ rfl
  rw [hclause] at hclause'
  rw [hprojections] at hprojections'
  rw [hown] at hown'
  cases hclause'
  cases hprojections'
  cases hown'
  obtain ⟨t, groups, items, rfl, hlabels, hitems, ht, -⟩ := hboth _ (by decide) rfl
  obtain ⟨labels, groups, hlabel, hnil, rfl⟩ := List.forall₂_cons_left_iff.mp hlabels
  cases hnil
  exact ⟨t, labels, items, htext, hlabel, hitems, ht⟩

end Query

end TwinGraph
