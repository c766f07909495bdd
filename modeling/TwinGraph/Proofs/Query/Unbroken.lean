import TwinGraph.Proofs.Json.Numbers
import TwinGraph.Proofs.Query.Restriction
import TwinGraph.Proofs.Query.Untouched

/-! A translation stands on one line. A query is respaced before it is read, and whatever comes into
the Cypher text is cut out of the respaced text, a name or a fixed word; so the only blank that comes
through is the space. -/
namespace TwinGraph

open Query Scan

/-- The only blank in the text is the space. -/
def Unbroken (s : Text) : Prop := ∀ c ∈ s, isBlank c = true → c = ' '

instance (s : Text) : Decidable (Unbroken s) := inferInstanceAs (Decidable (∀ c ∈ s, _))

section Texts

variable {s t : Text}

theorem Unbroken.of_subset (h : Unbroken t) (hs : s ⊆ t) : Unbroken s := fun c hc => h c (hs hc)

theorem unbroken_append : Unbroken (s ++ t) ↔ Unbroken s ∧ Unbroken t := List.forall_mem_append

theorem Unbroken.append (hs : Unbroken s) (ht : Unbroken t) : Unbroken (s ++ t) :=
  unbroken_append.mpr ⟨hs, ht⟩

theorem unbroken_cons {c : Char} :
    Unbroken (c :: s) ↔ (isBlank c = true → c = ' ') ∧ Unbroken s := List.forall_mem_cons

theorem unbroken_flatten {parts : List Text} (h : ∀ part ∈ parts, Unbroken part) :
    Unbroken parts.flatten := by
  intro c hc
  obtain ⟨part, hpart, hc⟩ := List.mem_flatten.mp hc
  exact h part hpart c hc

theorem unbroken_joined_cons {parts : List Text} :
    Unbroken (Text.joined (s :: parts)) ↔ Unbroken s ∧ Unbroken (Text.joined parts) :=
  unbroken_append

theorem unbroken_separated {sep : Text} (hsep : Unbroken sep) {parts : List Text}
    (h : ∀ part ∈ parts, Unbroken part) : Unbroken (Text.separated sep parts) := by
  cases parts with
  | nil => exact fun _ hc => absurd hc List.not_mem_nil
  | cons first more =>
    rw [List.forall_mem_cons] at h
    rw [separated_eq]
    refine h.1.append (unbroken_flatten fun part hpart => ?_)
    obtain ⟨next, hnext, rfl⟩ := List.mem_map.mp hpart
    exact hsep.append (h.2 next hnext)

theorem Unbroken.trim (h : Unbroken s) : Unbroken s.trim := by
  obtain ⟨left, right, hsplit, -, -⟩ := Text.trim_append s
  rw [hsplit, unbroken_append, unbroken_append] at h
  exact h.2.1

theorem unbroken_of_nameChars (h : ∀ c ∈ s, isNameChar c = true) : Unbroken s := by
  intro c hc hblank
  rw [not_isBlank_of_isNameChar (h c hc)] at hblank
  cases hblank

theorem unbroken_name (h : isIdentifier s = true) : Unbroken s :=
  unbroken_of_nameChars (isNameChar_of_mem h)

theorem unbroken_digits (h : ∀ c ∈ s, c.isDigit = true) : Unbroken s :=
  unbroken_of_nameChars fun c hc => by simp [isNameChar, Char.isAlphanum, h c hc]

theorem unbroken_getD {word : Option Text} (h : ∀ name ∈ word, isIdentifier name = true) :
    Unbroken (word.getD []) := by
  cases word with
  | none => exact fun _ hc => absurd hc List.not_mem_nil
  | some name => exact unbroken_name (h name rfl)

/-- Respacing leaves no other blank, whichever of them the text is written with. -/
theorem unbroken_respaced (s : Text) : Unbroken s.respaced := by
  refine unbroken_separated (by decide) fun word hword c hc hblank => ?_
  rw [not_cut_of_mem_pieces (List.mem_of_mem_filter hword) c hc] at hblank
  cases hblank

end Texts

/-! ### Patterns -/

theorem NodePattern.unbroken_print {n : NodePattern} (hn : n.Legal) : Unbroken n.print := by
  obtain ⟨var, label⟩ := n
  have hlabel : Unbroken (labelPart label) := by
    cases label with
    | none => exact fun _ hc => absurd hc List.not_mem_nil
    | some label => exact unbroken_cons.mpr ⟨by decide, unbroken_name (hn.label label rfl)⟩
  have hvar : Unbroken ('(' :: var.getD []) := unbroken_cons.mpr ⟨by decide, unbroken_getD hn.var⟩
  exact hvar.append (hlabel.append (by decide))

theorem unbroken_hops {hops : Text} (h : IsHops hops) : Unbroken hops := by
  obtain ⟨least, hleast, rfl | ⟨most, hmost, rfl⟩⟩ := h
  · exact unbroken_cons.mpr ⟨by decide, unbroken_digits hleast⟩
  · have hfront : Unbroken ('*' :: least) := unbroken_cons.mpr ⟨by decide, unbroken_digits hleast⟩
    have hdots : Unbroken ['.', '.'] := by decide
    exact hfront.append (hdots.append (unbroken_digits hmost))

theorem EdgeDetail.unbroken_render {d : EdgeDetail} (hd : d.Legal) : Unbroken d.render := by
  simp only [render, unbroken_joined_cons]
  refine ⟨unbroken_getD hd.var, ?_, ?_, by decide⟩
  · split
    · decide
    · exact unbroken_cons.mpr ⟨by decide,
        unbroken_separated (by decide) fun label hlabel => unbroken_name (hd.labels label hlabel)⟩
  · cases hread : d.hops with
    | none => decide
    | some hops => exact unbroken_hops (hd.hops hops hread)

theorem EdgePattern.unbroken_render {e : EdgePattern} (he : e.Legal) : Unbroken e.render := by
  obtain ⟨direction, detail⟩ := e
  have harrow : Unbroken direction.arrow.1 ∧ Unbroken direction.arrow.2 := by
    cases direction <;> decide
  cases detail with
  | none => exact harrow.1.append harrow.2
  | some detail =>
    simp only [render, unbroken_joined_cons]
    exact ⟨harrow.1, by decide, EdgeDetail.unbroken_render (he detail rfl), by decide, harrow.2,
      by decide⟩

theorem PathPattern.unbroken_print {p : PathPattern} (hp : p.Legal) : Unbroken p.print := by
  refine (NodePattern.unbroken_print hp.start).append (unbroken_flatten fun part hpart => ?_)
  obtain ⟨step, hstep, rfl⟩ := List.mem_map.mp hpart
  obtain ⟨hedge, hnode⟩ := hp.chain step hstep
  exact (EdgePattern.unbroken_render hedge).append (NodePattern.unbroken_print hnode)

theorem unbroken_labelCondition {var : Text} {labels : List Text} (hvar : isIdentifier var = true)
    (hlabels : ∀ label ∈ labels, isIdentifier label = true) :
    Unbroken (labelCondition var labels) := by
  simp only [labelCondition, unbroken_joined_cons]
  refine ⟨by decide, unbroken_separated (by decide) ?_, by decide, by decide⟩
  rw [List.forall_mem_map]
  intro label hlabel
  simp only [unbroken_joined_cons]
  exact ⟨by decide, unbroken_name hvar, by decide, unbroken_name (hlabels label hlabel), by decide,
    by decide⟩

/-- The pattern of a source and the conditions for the labels that it lost. -/
structure MatchClause.Unbroken (clause : MatchClause) : Prop where
  pattern : TwinGraph.Unbroken clause.pattern
  predicates : ∀ p ∈ clause.predicates, TwinGraph.Unbroken p

theorem MatchClause.unbroken_ofPaths {paths : List PathPattern} (h : ∀ p ∈ paths, p.Legal)
    {clause : MatchClause} (hclause : ofPaths paths = .ok clause) : clause.Unbroken := by
  rw [ofPaths_eq] at hclause
  split at hclause
  · cases hclause
  · cases hclause
    refine ⟨unbroken_separated (by decide) ?_, fun p hp => ?_⟩
    · rw [List.map_map, List.forall_mem_map]
      exact fun p hp => PathPattern.unbroken_print ((h p hp).rewritten _)
    · dsimp only at hp
      split at hp
      · obtain ⟨d, hd, hcondition⟩ := List.mem_filterMap.mp hp
        have hlegal := legal_edgeDetails h d hd
        obtain ⟨var, hvar, hlabels⟩ := Option.bind_eq_some_iff.mp hcondition
        split at hlabels
        · cases hlabels
        · cases hlabels
          exact unbroken_labelCondition (hlegal.var var hvar) hlegal.labels
      · cases hp

/-! ### Sources -/

namespace Query

theorem finds_scanAlias : Finds IsAlias scanAlias := by
  intro s name rest h
  unfold scanAlias at h
  split at h
  · cases h
  · next hname =>
    split at h
    · cases h
    · next hword =>
      cases h
      exact ⟨finds_scanName s _ _ hname, Bool.eq_false_iff.mpr hword⟩

end Query

namespace Source

theorem isAlias_scanAliasAfterGap (s : Text) : ∀ name ∈ (scanAliasAfterGap s).1, IsAlias name :=
  (finds_scanAlias.behind afterGap).optional s

theorem finds_scanCollection (kind : Collection) : Finds Legal (scanCollection kind) := by
  intro s source rest h
  obtain ⟨s', -, h⟩ := Option.bind_eq_some_iff.mp h
  cases h
  exact isAlias_scanAliasAfterGap s

theorem finds_scanJoin : Finds Join.Legal scanJoin := by
  intro s link rest h
  simp only [scanJoin, Option.bind_eq_bind, Option.bind_eq_some_iff, Option.some.injEq,
    Prod.mk.injEq] at h
  obtain ⟨s₁, -, s₂, -, s₃, -, ⟨target, s₄⟩, htarget, s₅, -, s₆, -, s₇, -, ⟨source, s₈⟩, hsource, s₉,
    -, ⟨relationship, s₁₀⟩, hrelationship, rfl, -⟩ := h
  exact ⟨finds_scanAlias _ target _ htarget, finds_scanAlias _ source _ hsource,
    finds_scanName _ relationship _ hrelationship, isAlias_scanAliasAfterGap s₁₀⟩

theorem finds_scanJoins : Finds Legal scanJoins := by
  intro s source rest h
  obtain ⟨⟨first, s₁⟩, hfirst, h⟩ := Option.bind_eq_some_iff.mp h
  obtain ⟨s₂, -, h⟩ := Option.bind_eq_some_iff.mp h
  cases h
  exact ⟨isAlias_scanAliasAfterGap s, List.cons_ne_nil _ _,
    List.forall_mem_cons.mpr ⟨finds_scanJoin _ first s₁ hfirst, finds_scanJoin.many s₁⟩⟩

theorem finds_scanMatch : Finds Legal scanMatch := by
  intro s source rest h
  obtain ⟨s₁, -, h⟩ := Option.bind_eq_some_iff.mp h
  obtain ⟨s₂, -, h⟩ := Option.bind_eq_some_iff.mp h
  obtain ⟨⟨patterns, left⟩, hpatterns, h⟩ := Option.bind_eq_some_iff.mp h
  dsimp only at h
  split at h
  · cases h
    exact finds_scanPaths _ patterns left hpatterns
  · cases h

theorem finds_scan : Finds Legal Source.scan := by
  intro s source rest h
  unfold Source.scan at h
  split at h
  · exact finds_scanCollection _ _ source rest h
  · obtain ⟨s', -, h⟩ := Option.bind_eq_some_iff.mp h
    rcases Option.or_eq_some_iff.mp h with h | ⟨-, h⟩
    · rcases Option.or_eq_some_iff.mp h with h | ⟨-, h⟩
      · exact finds_scanMatch s' source rest h
      · exact finds_scanJoins s' source rest h
    · exact finds_scanCollection _ s' source rest h

theorem legal_of_read {s rest : Text} {source : Source} (h : Source.read s = .ok (source, rest)) :
    source.Legal := by
  unfold Source.read at h
  split at h
  · cases h
  · dsimp only at h
    split at h
    · next hscan =>
      cases h
      exact finds_scan _ source rest hscan
    · cases h

end Source

namespace Query

theorem unbroken_collectionPattern (kind : Collection) {var : Text} (hvar : Unbroken var) :
    Unbroken (collectionPattern kind var) := by
  cases kind with
  | twins =>
    simp only [collectionPattern, unbroken_joined_cons]
    exact ⟨by decide, hvar, by decide, by decide, by decide, by decide⟩
  | relationships =>
    simp only [collectionPattern, unbroken_joined_cons]
    exact ⟨by decide, by decide, by decide, hvar, by decide, by decide, by decide, by decide⟩

theorem unbroken_joinPattern {j : TwinGraph.Join} (hj : j.Legal) : Unbroken (Join.pattern j) := by
  simp only [Join.pattern, unbroken_joined_cons]
  exact ⟨by decide, unbroken_name hj.source.1, by decide, by decide, by decide,
    unbroken_getD fun name hname => (hj.var name hname).1, by decide, unbroken_name hj.relationship,
    by decide, unbroken_name hj.target.1, by decide, by decide, by decide, by decide⟩

theorem unbroken_ofSource {defaults : Bool} {source : Source} (hsource : source.Legal) {scope : Scope}
    (h : Scope.ofSource defaults source = .ok scope) :
    scope.clause.Unbroken ∧ ∀ var ∈ scope.implicitAlias, Unbroken var := by
  have hbare : ∀ {pattern : Text}, Unbroken pattern → (MatchClause.mk pattern []).Unbroken :=
    fun hpattern => ⟨hpattern, fun p hp => absurd hp List.not_mem_nil⟩
  have hnone : ∀ var ∈ (none : Option Text), Unbroken var := fun var hvar => nomatch hvar
  cases source with
  | collection kind var =>
    cases var with
    | some var =>
      cases h
      exact ⟨hbare (unbroken_collectionPattern kind (unbroken_name (hsource var rfl).1)), hnone⟩
    | none =>
      rw [Scope.ofSource] at h
      split at h
      · cases h
        have hdefault : Unbroken kind.defaultAlias := by cases kind <;> decide
        refine ⟨hbare (unbroken_collectionPattern kind hdefault), ?_⟩
        rintro _ ⟨⟩
        exact hdefault
      · cases h
  | paths patterns =>
    obtain ⟨clause, hclause, h⟩ := Outcome.bind_eq_ok.mp h
    cases h
    exact ⟨MatchClause.unbroken_ofPaths hsource.2 hclause, hnone⟩
  | joins var links =>
    cases h
    exact ⟨hbare (unbroken_separated (by decide)
      (List.forall_mem_map.mpr fun link hlink => unbroken_joinPattern (hsource.2.2 link hlink))), hnone⟩

end Query

/-! ### Projections and conditions -/

namespace Item

theorem unbroken_renderAll {items : List Item} :
    Unbroken (renderAll items) ↔ ∀ item ∈ items, Unbroken item.render := by
  induction items with
  | nil => exact iff_of_true (by decide) (fun item hitem => absurd hitem List.not_mem_nil)
  | cons item items ih => rw [renderAll, unbroken_append, ih, List.forall_mem_cons]

theorem unbroken_group {items : List Item} :
    Unbroken (group items).render ↔ ∀ item ∈ items, Unbroken item.render := by
  rw [render, List.cons_append, unbroken_cons, unbroken_append, unbroken_renderAll]
  exact ⟨fun h => h.2.1, fun h => ⟨by decide, h, by decide⟩⟩

theorem unbroken_call {name : Text} {args : List Item} : Unbroken (call name args).render ↔
    Unbroken name ∧ ∀ item ∈ args, Unbroken item.render := by
  rw [render, List.append_assoc, unbroken_append, ← unbroken_group, render]

theorem unbroken_ofText? {s : Text} (hs : Unbroken s) {items : List Item}
    (h : ofText? s = some items) : ∀ item ∈ items, Unbroken item.render := by
  rw [← unbroken_renderAll, ← flatten_tokensAll, tokensAll_ofText? h, Token.flatten_ofText]
  exact hs

/-- A pass that keeps the shape of the tree brings no other blank in, if neither its leaves nor its
names do. -/
theorem Walks.unbroken {f : Item → Item} {name : Text → Text} {before : Text → List Item}
    (h : Walks f name before)
    (hleaf : ∀ x, x.isLeaf = true → Unbroken x.render → Unbroken (f x).render)
    (hname : ∀ n, Unbroken n → Unbroken (name n))
    (hbefore : ∀ n, ∀ x ∈ before n, Unbroken x.render) {item : Item} (hitem : Unbroken item.render) :
    Unbroken (f item).render := by
  induction item using nested_induction with
  | leaf x hx => exact hleaf x hx hitem
  | call n args ih =>
    obtain ⟨hn, hargs⟩ := unbroken_call.mp hitem
    rw [h.call, unbroken_call, List.forall_mem_append, List.forall_mem_map]
    exact ⟨hname n hn, hbefore n, fun x hx => ih x hx (hargs x hx)⟩
  | group items ih =>
    rw [h.group, unbroken_group, List.forall_mem_map]
    exact fun x hx => ih x hx (unbroken_group.mp hitem x hx)

theorem unbroken_qualify {var : Text} (hvar : Unbroken var) {item : Item}
    (hitem : Unbroken item.render) : Unbroken (item.qualify var).render := by
  refine (walks_qualify var).unbroken (fun x hx hrender => ?_) (fun _ h => h)
    (fun _ x hx => absurd hx List.not_mem_nil) hitem
  cases x with
  | word w =>
    rw [qualify]
    split
    · exact hrender
    · exact hvar.append (unbroken_cons.mpr ⟨by decide, hrender⟩)
  | literal | space | symbol => exact hrender
  | call | group => cases hx

theorem unbroken_bindModelTest {graph : Text} (hgraph : Unbroken graph) {var : Option Text}
    (hvar : ∀ v ∈ var, Unbroken v) {item : Item} (hitem : Unbroken item.render) :
    Unbroken (item.bindModelTest graph var).render := by
  have htest : Unbroken (graphTest graph) := by
    simp only [graphTest, unbroken_joined_cons]
    exact ⟨hgraph, by decide, by decide⟩
  refine (walks_bindModelTest graph var).unbroken (fun x hx hrender => ?_) (fun n hn => ?_)
    (fun n x hx => ?_) hitem
  · rwa [bindModelTest_leaf hx]
  · split
    · exact htest
    · exact hn
  · split at hx
    · cases var with
      | none => cases hx
      | some v =>
        have hsubject : ∀ x ∈ modelSubject (some v), Unbroken x.render :=
          List.forall_mem_cons.mpr ⟨hvar v rfl, List.forall_mem_singleton.mpr (by decide)⟩
        exact hsubject x hx
    · cases hx

theorem unbroken_pathStep {s : Text} (hs : Unbroken s) : Unbroken (pathStep s) := by
  unfold pathStep
  split
  · next s' =>
    simp only [unbroken_joined_cons]
    exact ⟨by decide, (unbroken_cons.mp hs).2, by decide, by decide⟩
  · exact unbroken_cons.mpr ⟨by decide, hs⟩

theorem unbroken_bracketPath {path : Text} (h : Unbroken path) : Unbroken (bracketPath path) := by
  have hpieces : ∀ piece ∈ path.pieces (· == '.'), Unbroken piece := fun piece hpiece =>
    h.of_subset fun c hc => mem_of_mem_pieces hpiece hc
  unfold bracketPath
  split
  · decide
  · next first steps heq =>
    rw [heq, List.forall_mem_cons] at hpieces
    refine hpieces.1.append (unbroken_flatten (List.forall_mem_map.mpr fun step hstep => ?_))
    exact unbroken_pathStep (hpieces.2 step hstep)

theorem unbroken_bracket {item : Item} (hitem : Unbroken item.render) :
    Unbroken item.bracket.render := by
  refine walks_bracket.unbroken (fun x hx hrender => ?_) (fun _ h => h)
    (fun _ x hx => absurd hx List.not_mem_nil) hitem
  cases x with
  | word w => exact unbroken_bracketPath hrender
  | literal | space | symbol => exact hrender
  | call | group => cases hx

theorem unbroken_native {item : Item} (hitem : Unbroken item.render) :
    ∀ part ∈ item.native, Unbroken part.render := by
  induction item using nested_induction with
  | leaf x hx =>
    rw [native_leaf hx]
    exact List.forall_mem_singleton.mpr hitem
  | call name args ih =>
    obtain ⟨hname, hargs⟩ := unbroken_call.mp hitem
    have hnative : ∀ part ∈ nativeAll args, Unbroken part.render := by
      rw [nativeAll_eq_flatMap]
      exact List.forall_mem_flatMap.mpr fun x hx => ih x hx (hargs x hx)
    have hwords : ∀ operator, betweenOperator name = some operator ∨ nullTest name = some operator →
        Unbroken (' ' :: operator) := fun operator hoperator =>
      unbroken_cons.mpr ⟨by decide, forall_operator (by decide) (by decide) hoperator⟩
    rw [Item.native]
    exact forall_nativeCall (unbroken_call.mpr ⟨hname, hnative⟩) hnative
      (fun operator hoperator => (hwords operator (Or.inl hoperator)).append (by decide))
      fun test htest => hwords test (Or.inr htest)
  | group items ih =>
    rw [Item.native, List.forall_mem_singleton, unbroken_group, nativeAll_eq_flatMap]
    exact List.forall_mem_flatMap.mpr fun x hx => ih x hx (unbroken_group.mp hitem x hx)

theorem unbroken_translated {graph : Text} (hgraph : Unbroken graph) {var : Option Text}
    (hvar : ∀ v ∈ var, Unbroken v) {items : List Item} (h : ∀ item ∈ items, Unbroken item.render) :
    Unbroken (renderAll (translated graph var items)) := by
  have haliased : ∀ item ∈ aliased var items, Unbroken item.render := by
    cases var with
    | none => exact h
    | some v =>
      rw [aliased, qualifyAll_eq_map, List.forall_mem_map]
      exact fun item hitem => unbroken_qualify (hvar v rfl) (h item hitem)
  rw [unbroken_renderAll, translated, bracketAll_eq_map, bindModelTestAll_eq_map,
    nativeAll_eq_flatMap, List.map_map, List.forall_mem_map, List.forall_mem_flatMap]
  exact fun item hitem part hpart => unbroken_bracket
    (unbroken_bindModelTest hgraph hvar (unbroken_native (haliased item hitem) part hpart))

end Item

namespace Query

open Item

theorem unbroken_projectionText {graph : Text} (hgraph : Unbroken graph) {s out : Text}
    (hs : Unbroken s) (h : projectionText graph s = .ok out) : Unbroken out := by
  obtain ⟨items, hitems, h⟩ := Outcome.bind_eq_ok.mp h
  split at h
  · cases h
    decide
  · cases h
    exact @unbroken_translated graph hgraph none (fun v hv => nomatch hv) items
      (unbroken_ofText? hs (ofText?_of_readItems hitems))

theorem unbroken_conditionText {graph : Text} (hgraph : Unbroken graph) {var : Option Text}
    (hvar : ∀ v ∈ var, Unbroken v) {s out : Text} (hs : Unbroken s)
    (h : conditionText graph var s = .ok out) : Unbroken out := by
  obtain ⟨items, hitems, h⟩ := Outcome.bind_eq_ok.mp h
  have hout := unbroken_translated hgraph hvar (unbroken_ofText? hs (ofText?_of_readItems hitems))
  cases var <;> (cases h; exact hout)

/-! ### Queries -/

theorem unbroken_projections {s rest projections : Text} {top : Option Nat} (hs : Unbroken s)
    (h : readSelect s = .ok (top, projections, rest)) : Unbroken projections := by
  obtain ⟨before, ⟨front, rfl, -⟩, -, rfl⟩ := readSelect_projections h
  rw [unbroken_append, unbroken_append] at hs
  exact hs.2.1.trim

theorem unbroken_conditions {s : Text} {q : Query} (hs : Unbroken s) (h : Query.read s = .ok q) :
    ∀ conditions ∈ q.conditions, Unbroken conditions := by
  intro conditions hq
  obtain ⟨front, blanks, rfl, -⟩ := read_conditions h hq
  rw [unbroken_append, unbroken_append] at hs
  exact hs.1.2

theorem unbroken_whereText {predicates : List Text} (hpredicates : ∀ p ∈ predicates, Unbroken p)
    {conditions : Option Text} (hconditions : ∀ s ∈ conditions, Unbroken s) :
    ∀ s ∈ whereText predicates conditions, Unbroken s := by
  have hseparated : Unbroken (Text.separated " AND " predicates) :=
    unbroken_separated (by decide) hpredicates
  intro s hs
  cases conditions with
  | none =>
    rw [whereText] at hs
    split at hs
    · cases hs
    · cases hs
      exact hseparated
  | some conditions =>
    rw [whereText] at hs
    split at hs
    · exact hconditions s hs
    · cases hs
      simp only [unbroken_joined_cons]
      exact ⟨hseparated, by decide, hconditions conditions rfl, by decide, by decide⟩

theorem unbroken_render {pattern projections : Text} {conditions : Option Text} (top : Option Nat)
    (hpattern : Unbroken pattern) (hprojections : Unbroken projections)
    (hconditions : ∀ s ∈ conditions, Unbroken s) :
    Unbroken (Query.render pattern conditions projections top) := by
  unfold Query.render
  simp only [unbroken_joined_cons]
  refine ⟨by decide, hpattern, ?_, by decide, hprojections, ?_, by decide⟩
  · cases conditions with
    | none => decide
    | some conditions =>
      simp only [unbroken_joined_cons]
      exact ⟨by decide, hconditions conditions rfl, by decide⟩
  · cases top with
    | none => decide
    | some n =>
      simp only [unbroken_joined_cons]
      exact ⟨by decide, unbroken_digits fun c hc => Json.isDigit_of_mem_ofNat hc, by decide⟩

theorem unbroken_conditionText? {graph : Text} (hgraph : Unbroken graph) {var : Option Text}
    (hvar : ∀ v ∈ var, Unbroken v) {conditions out : Option Text}
    (hconditions : ∀ s ∈ conditions, Unbroken s)
    (h : conditionText? graph var conditions = .ok out) : ∀ s ∈ out, Unbroken s := by
  cases conditions with
  | none =>
    cases h
    exact fun s hs => nomatch hs
  | some conditions =>
    obtain ⟨text, rfl, htext⟩ := conditionText?_some h
    rintro _ ⟨⟩
    exact unbroken_conditionText hgraph hvar (hconditions conditions rfl) htext

theorem unbroken_toCypher {graph s text : Text} (hgraph : isIdentifier graph = true)
    (h : toCypher graph s = .ok text) : Unbroken text := by
  obtain ⟨q, hread, h⟩ := Outcome.bind_eq_ok.mp h
  have hconditions := unbroken_conditions (unbroken_respaced s) hread
  obtain ⟨⟨top, projections, rest⟩, hselect, hread⟩ := Outcome.bind_eq_ok.mp hread
  obtain ⟨⟨source, rest'⟩, hsource, hread⟩ := Outcome.bind_eq_ok.mp hread
  obtain ⟨conditions, -, hread⟩ := Outcome.bind_eq_ok.mp hread
  cases hread
  obtain ⟨projected, hprojected, h⟩ := Outcome.bind_eq_ok.mp h
  obtain ⟨scope, hscope, h⟩ := Outcome.bind_eq_ok.mp h
  obtain ⟨conditioned, hconditioned, h⟩ := Outcome.bind_eq_ok.mp h
  cases h
  have hname := unbroken_name hgraph
  obtain ⟨hclause, halias⟩ := unbroken_ofSource (Source.legal_of_read hsource) hscope
  exact unbroken_render top hclause.pattern
    (unbroken_projectionText hname (unbroken_projections (unbroken_respaced s) hselect) hprojected)
    (unbroken_whereText hclause.predicates
      (unbroken_conditionText? hname halias hconditions hconditioned))

end Query
end TwinGraph
