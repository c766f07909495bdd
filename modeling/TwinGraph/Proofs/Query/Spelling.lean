import TwinGraph.Proofs.Query.Arity
import TwinGraph.Proofs.Query.Formulas
import TwinGraph.Proofs.Query.Units

/-! Conditions whose calls become operators. What a call is applied to stays together exactly if no
argument has a looser operator at its root. -/
namespace TwinGraph

open Query Item

/-- A path whose first name is no operator. -/
def IsProperty (w : Text) : Prop :=
  ∀ s ∈ (w.pieces (· == '.')).head?, operatorWords.any (Text.sameLetters s) = false

instance (w : Text) : Decidable (IsProperty w) :=
  inferInstanceAs (Decidable (∀ s ∈ (w.pieces (· == '.')).head?, _ = false))

/-- The items spell operands and operators in a row. At first an operand is expected, and the row
ends behind an operand. -/
inductive Spelled : Bool → List Item → List Lexeme → Prop
  | nil : Spelled true [] []
  | space {behind items row} (s : Text) : Spelled behind items row →
      Spelled behind (space s :: items) row
  | name {w items row} : IsProperty w → Spelled true items row →
      Spelled false (word w :: items) (.operand (.name w) :: row)
  | constant {w items row} : constants.any (Text.sameLetters w) = true → Spelled true items row →
      Spelled false (word w :: items) (.operand (.constant w) :: row)
  | literal {items row} (s : Text) : Spelled true items row →
      Spelled false (literal s :: items) (.operand (.constant s) :: row)
  | group {inner items row row'} : Spelled false inner row → Spelled true items row' →
      Spelled false (group inner :: items) (.group row :: row')
  | not {w items row} : w.sameLetters "NOT" = true → Spelled false items row →
      Spelled false (word w :: items) (.unary .not :: row)
  | notCall {w args items row} : w.sameLetters "NOT" = true →
      Spelled false (Item.group args :: items) row →
      Spelled false (call w args :: items) (.unary .not :: row)
  | sign {s items row} : s ∈ sums → Spelled false items row →
      Spelled false (symbol s :: items) (.unary (.sign s) :: row)
  | compare {s items row} : s ∈ comparisons → Spelled false items row →
      Spelled true (symbol s :: items) (.binary (.compare s) :: row)
  | add {s items row} : s ∈ sums → Spelled false items row →
      Spelled true (symbol s :: items) (.binary (.add s) :: row)
  | connective {w op items row} : connective? w = some op → Spelled false items row →
      Spelled true (word w :: items) (.binary op :: row)
  | connectiveCall {w op args items row} : connective? w = some op →
      Spelled false (Item.group args :: items) row →
      Spelled true (call w args :: items) (.binary op :: row)
  | between {name operator args left right items l r row} :
      betweenOperator name = some operator → arguments args = [left, right] →
      Spelled false left l → Spelled false right r → Spelled true items row →
      Spelled false (call name args :: items) (.betweenCall operator l r :: row)
  | test {name test args operand items x row} :
      nullTest name = some test → arguments args = [operand] →
      Spelled false operand x → Spelled true items row →
      Spelled false (call name args :: items) (.testCall test x :: row)

/-- The relation holds between neighbours, inside calls and groups as well. -/
inductive Linked (R : Item → Item → Prop) : List Item → Prop
  | intro {items : List Item} : items.IsChain R →
      (∀ name args, call name args ∈ items → Linked R args) →
      (∀ inner, group inner ∈ items → Linked R inner) → Linked R items

def Item.endsInWord : Item → Bool
  | word _ => true
  | symbol s => s.getLast?.any isNameChar
  | _ => false

/-- No letter of the second item comes directly behind a word that the first one ends in. -/
def Parted (var : Option Text) (x y : Item) : Prop :=
  (∀ z ∈ (x.inScope var).native.getLast?, z.endsInWord = false) ∨
    (y.inScope var).render.head?.any isNameChar = false

instance (var : Option Text) (x y : Item) : Decidable (Parted var x y) :=
  inferInstanceAs (Decidable ((∀ z ∈ (x.inScope var).native.getLast?, z.endsInWord = false) ∨ _))

namespace Item

/-! ### Items of a condition on their way -/

theorem exists_word_inScope (var : Option Text) (w : Text) :
    ∃ w', (word w).inScope var = word w' := by
  by_cases hw : operatorWords.any (Text.sameLetters w) = true
  · exact ⟨w, inScope_keyword var hw⟩
  · exact ⟨_, inScope_word (Bool.eq_false_iff.mpr hw) var⟩

theorem isComma_inScope (var : Option Text) (x : Item) : (x.inScope var).isComma = x.isComma := by
  cases x with
  | word w =>
    obtain ⟨w', hw'⟩ := exists_word_inScope var w
    rw [hw']
    rfl
  | literal s => rw [inScope_literal]
  | space s => rw [inScope_space]
  | symbol s => rw [inScope_symbol]
  | call name args => rw [inScope_call]; rfl
  | group inner => rw [inScope_group]; rfl

theorem carries_inScope (var : Option Text) (item : Item) :
    Carries id (fun x => [x.inScope var]) item := by
  cases item with
  | symbol s =>
    have hkept : Carries id (fun x => [id x]) (symbol s) := carries_key _
    rw [Carries, inScope_symbol]
    exact hkept
  | space s =>
    rw [Carries, inScope_space]
    rfl
  | literal s =>
    rw [Carries, inScope_literal]
    exact solid_singleton rfl rfl
  | word w =>
    obtain ⟨w', hw'⟩ := exists_word_inScope var w
    rw [Carries, hw']
    exact solid_singleton rfl rfl
  | call name args =>
    rw [Carries, inScope_call]
    exact solid_singleton rfl rfl
  | group inner =>
    rw [Carries, inScope_group]
    exact solid_singleton rfl rfl

theorem arguments_inScope (var : Option Text) (args : List Item) :
    arguments (args.map (inScope var)) = (arguments args).map (·.map (inScope var)) := by
  rw [List.map_eq_flatMap, arguments_flatMap fun item _ => carries_inScope var item, argumentsBy_id]
  exact List.map_congr_left fun piece _ => List.map_eq_flatMap.symm

theorem mem_commaPieces_of_mem {items : List Item} {x : Item} (h : x ∈ items)
    (hcomma : x.isComma = false) : ∃ piece ∈ commaPieces items, x ∈ piece := by
  induction items with
  | nil => cases h
  | cons y items ih =>
    cases hy : y.isComma with
    | true =>
      rcases List.mem_cons.mp h with rfl | h
      · rw [hy] at hcomma
        cases hcomma
      · obtain ⟨piece, hpiece, hx⟩ := ih h
        rw [commaPieces_comma hy]
        exact ⟨piece, List.mem_cons_of_mem _ hpiece, hx⟩
    | false =>
      obtain ⟨first, pieces, hold, hnew⟩ :=
        commaPieces_append (List.forall_mem_singleton.mpr hy) items
      rw [← List.singleton_append, hnew]
      rcases List.mem_cons.mp h with rfl | h
      · exact ⟨_, List.mem_cons_self, by simp⟩
      · obtain ⟨piece, hpiece, hx⟩ := ih h
        rw [hold] at hpiece
        rcases List.mem_cons.mp hpiece with rfl | hpiece
        · exact ⟨_, List.mem_cons_self, by simp [hx]⟩
        · exact ⟨piece, List.mem_cons_of_mem _ hpiece, hx⟩

theorem mem_trimSpaces_of_mem {items : List Item} {x : Item} (h : x ∈ items)
    (hspace : x.isSpace = false) : x ∈ trimSpaces items := by
  have hkept : ∀ {xs : List Item}, x ∈ xs → x ∈ xs.dropWhile isSpace := by
    intro xs hx
    rw [← List.takeWhile_append_dropWhile (p := isSpace) (l := xs), List.mem_append] at hx
    rcases hx with hx | hx
    · have hall := List.all_eq_true.mp List.all_takeWhile x hx
      rw [hspace] at hall
      cases hall
    · exact hx
  exact List.mem_reverse.mpr (hkept (List.mem_reverse.mpr (hkept h)))

theorem mem_arguments_of_mem {args : List Item} {x : Item} (h : x ∈ args)
    (hspace : x.isSpace = false) (hcomma : x.isComma = false) :
    ∃ piece ∈ arguments args, x ∈ piece := by
  have hall : ¬args.all isSpace = true := fun hall => by
    have := List.all_eq_true.mp hall x h
    rw [hspace] at this
    cases this
  obtain ⟨piece, hpiece, hx⟩ := mem_commaPieces_of_mem h hcomma
  rw [arguments, if_neg hall]
  exact ⟨_, List.mem_map_of_mem hpiece, mem_trimSpaces_of_mem hx hspace⟩

theorem Proper.of_test {name test : Text} {args operand : List Item}
    (hname : nullTest name = some test) (hargs : arguments args = [operand]) :
    Proper name args := by
  refine ⟨fun hsome => ?_, fun _ arg harg => ?_⟩
  · obtain ⟨operator, hoperator⟩ := Option.isSome_iff_exists.mp hsome
    rw [nullTest_of_between hoperator] at hname
    cases hname
  · rw [← Bool.not_eq_true]
    exact fun hcomma => arguments_ne_singleton ⟨arg, harg, hcomma⟩ operand hargs

theorem Tidy.inScope {item : Item} (h : item.Tidy) (var : Option Text) :
    (item.inScope var).Tidy := by
  induction h with
  | word w =>
    obtain ⟨w', hw'⟩ := exists_word_inScope var w
    rw [hw']
    exact .word w'
  | literal s =>
    rw [inScope_literal]
    exact .literal s
  | space s =>
    rw [inScope_space]
    exact .space s
  | symbol s =>
    rw [inScope_symbol]
    exact .symbol s
  | group _ ih =>
    rw [inScope_group]
    exact .group (List.forall_mem_map.mpr ih)
  | call hproper _ ih =>
    rw [inScope_call]
    refine .call ⟨fun hsome left right hargs => ?_, fun hsome => ?_⟩ (List.forall_mem_map.mpr ih)
    · rw [arguments_inScope] at hargs
      obtain ⟨left', rest, hsource, rfl, hrest⟩ := List.map_eq_cons_iff.mp hargs
      obtain ⟨right', rest', rfl, rfl, hnil⟩ := List.map_eq_cons_iff.mp hrest
      rw [List.map_eq_nil_iff.mp hnil] at hsource
      obtain ⟨hleft, hright⟩ := hproper.between hsome left' right' hsource
      exact ⟨List.map_eq_nil_iff.not.mpr hleft, List.map_eq_nil_iff.not.mpr hright⟩
    · rw [List.forall_mem_map]
      exact fun arg harg => (isComma_inScope var arg).trans (hproper.test hsome arg harg)

end Item

/-! ### Calls of a condition -/

theorem Spelled.ne_nil {items : List Item} {row : List Lexeme} (h : Spelled false items row) :
    items ≠ [] := by
  rintro rfl
  cases h

/-- A word that is an operator between conditions or in front of one. -/
structure IsConnector (w : Text) : Prop where
  between : betweenOperator w = none
  test : nullTest w = none
  model : w.sameLetters "IS_OF_MODEL" = false
  operator : operatorWords.any (Text.sameLetters w) = true

theorem isConnector_of_sameLetters {w keyword : Text} (hw : w.sameLetters keyword = true)
    (hkeyword : keyword ∈ (["AND", "OR", "NOT"] : List Text)) : IsConnector w := by
  have hall : ∀ k ∈ (["AND", "OR", "NOT"] : List Text), betweenOperator k = none ∧
      nullTest k = none ∧ k.sameLetters "IS_OF_MODEL" = false ∧
      operatorWords.any (Text.sameLetters k) = true := by decide
  have hsame : w.sameLetters = keyword.sameLetters := funext fun t => by
    rw [Text.sameLetters, Text.sameLetters, beq_iff_eq.mp hw]
  obtain ⟨hbetween, htest, hmodel, hoperator⟩ := hall keyword hkeyword
  refine ⟨?_, ?_, ?_, ?_⟩
  · rw [← hbetween, betweenOperator, betweenOperator, hsame]
  · rw [← htest, nullTest, nullTest, hsame]
  · rw [hsame, hmodel]
  · rw [hsame, hoperator]

theorem isConnector_not {w : Text} (h : w.sameLetters "NOT" = true) : IsConnector w :=
  isConnector_of_sameLetters h (by decide)

theorem isConnector_of_connective {w : Text} {op : Binary} (h : connective? w = some op) :
    IsConnector w := by
  unfold connective? at h
  split at h
  · next hand => exact isConnector_of_sameLetters hand (by decide)
  · split at h
    · next hor => exact isConnector_of_sameLetters hor (by decide)
    · cases h

theorem IsConnector.tidy {w : Text} (h : IsConnector w) {args : List Item}
    (hargs : (Item.group args).Tidy) : (call w args).Tidy := by
  refine .call ⟨fun hsome => ?_, fun hsome => ?_⟩ ?_
  · rw [h.between] at hsome
    cases hsome
  · rw [h.test] at hsome
    cases hsome
  · cases hargs with
    | group hargs => exact hargs

theorem tidy_of_arguments {args : List Item} (h : ∀ piece ∈ arguments args, ∀ x ∈ piece, x.Tidy) :
    ∀ x ∈ args, x.Tidy := by
  intro x hx
  cases hspace : x.isSpace with
  | true =>
    obtain ⟨s, rfl⟩ := isSpace_eq_true.mp hspace
    exact .space s
  | false =>
    cases hcomma : x.isComma with
    | true =>
      rw [isComma_eq_true.mp hcomma]
      exact .symbol _
    | false =>
      obtain ⟨piece, hpiece, hmem⟩ := mem_arguments_of_mem hx hspace hcomma
      exact h piece hpiece x hmem

/-- In a condition every call is proper. -/
theorem Spelled.tidy {behind : Bool} {items : List Item} {row : List Lexeme}
    (h : Spelled behind items row) : ∀ x ∈ items, x.Tidy := by
  induction h with
  | nil => simp
  | space s _ ih => exact List.forall_mem_cons.mpr ⟨.space s, ih⟩
  | literal s _ ih => exact List.forall_mem_cons.mpr ⟨.literal s, ih⟩
  | name _ _ ih | constant _ _ ih | not _ _ ih | connective _ _ ih =>
    exact List.forall_mem_cons.mpr ⟨.word _, ih⟩
  | sign _ _ ih | compare _ _ ih | add _ _ ih => exact List.forall_mem_cons.mpr ⟨.symbol _, ih⟩
  | group _ _ ihinner ih => exact List.forall_mem_cons.mpr ⟨.group ihinner, ih⟩
  | notCall hw _ ih =>
    rw [List.forall_mem_cons] at ih ⊢
    exact ⟨(isConnector_not hw).tidy ih.1, ih.2⟩
  | connectiveCall hw _ ih =>
    rw [List.forall_mem_cons] at ih ⊢
    exact ⟨(isConnector_of_connective hw).tidy ih.1, ih.2⟩
  | between hname hargs hleft hright _ ihl ihr ih =>
    refine List.forall_mem_cons.mpr
      ⟨.call (.of_between hname hargs hleft.ne_nil hright.ne_nil) (tidy_of_arguments ?_), ih⟩
    rw [hargs, List.forall_mem_cons, List.forall_mem_singleton]
    exact ⟨ihl, ihr⟩
  | test hname hargs _ _ ihx ih =>
    refine List.forall_mem_cons.mpr ⟨.call (.of_test hname hargs) (tidy_of_arguments ?_), ih⟩
    rw [hargs, List.forall_mem_singleton]
    exact ihx

/-! ### The text of a condition -/

theorem not_point_of_operator {w : Text} (h : operatorWords.any (Text.sameLetters w) = true) :
    ∀ c ∈ w, (c == '.') = false := by
  obtain ⟨keyword, hmem, hsame⟩ := List.any_eq_true.mp h
  have hall : ∀ keyword ∈ operatorWords, IsKeyword keyword := by decide
  refine fun c hc => Bool.eq_false_iff.mpr fun hpoint => ?_
  have hchar := isNameChar_of_sameLetters (hall keyword hmem) hsame c hc
  rw [beq_iff_eq.mp hpoint] at hchar
  cases hchar

theorem IsProperty.not_operator {w : Text} (h : IsProperty w) :
    operatorWords.any (Text.sameLetters w) = false := by
  refine Bool.eq_false_iff.mpr fun hw => ?_
  have hfirst := h w (by rw [pieces_plain (not_point_of_operator hw)]; rfl)
  rw [hw] at hfirst
  cases hfirst

def emit (graph : Text) (var : Option Text) (items : List Item) : Text :=
  renderAll (bindModelTestAll graph var (nativeAll (items.map (Item.inScope var))))

section Emit

variable {graph : Text} {var : Option Text}

theorem emit_append (items items' : List Item) :
    emit graph var (items ++ items') = emit graph var items ++ emit graph var items' := by
  simp only [emit, nativeAll_eq_flatMap, bindModelTestAll_eq_map, List.map_append,
    List.flatMap_append, renderAll_append]

theorem emit_cons (x : Item) (items : List Item) :
    emit graph var (x :: items) = emit graph var [x] ++ emit graph var items :=
  emit_append [x] items

theorem emit_nil : emit graph var [] = [] := by
  simp [emit, nativeAll, bindModelTestAll, renderAll]

/-- An item that neither pass changes any more comes out as it is in scope. -/
theorem emit_leaf {x : Item} (h : (x.inScope var).isLeaf = true) :
    emit graph var [x] = (x.inScope var).render := by
  rw [emit, List.map_singleton, nativeAll_eq_flatMap, List.flatMap_singleton, native_leaf h,
    bindModelTestAll_eq_map, List.map_singleton, bindModelTest_leaf h, renderAll_singleton]

theorem emit_name {w : Text} (hw : IsProperty w) :
    emit graph var [word w] = wordText var w := by
  rw [emit_leaf, inScope_word hw.not_operator, Item.render]
  rw [inScope_word hw.not_operator]
  rfl

theorem emit_keyword {w : Text} (hw : operatorWords.any (Text.sameLetters w) = true) :
    emit graph var [word w] = w := by
  rw [emit_leaf, inScope_keyword var hw, Item.render]
  rw [inScope_keyword var hw]
  rfl

theorem emit_literal (s : Text) : emit graph var [literal s] = s := by
  rw [emit_leaf, inScope_literal, Item.render]
  rw [inScope_literal]
  rfl

theorem emit_space (s : Text) : emit graph var [space s] = s := by
  rw [emit_leaf, inScope_space, Item.render]
  rw [inScope_space]
  rfl

theorem emit_symbol (s : Text) : emit graph var [symbol s] = s := by
  rw [emit_leaf, inScope_symbol, Item.render]
  rw [inScope_symbol]
  rfl

theorem emit_group (inner : List Item) :
    emit graph var [group inner] = '(' :: emit graph var inner ++ [')'] := by
  rw [emit, List.map_singleton, inScope_group, nativeAll_eq_flatMap, List.flatMap_singleton,
    Item.native, bindModelTestAll_eq_map, List.map_singleton, Item.bindModelTest,
    renderAll_singleton, Item.render, ← emit]

theorem emit_connector {w : Text} (hw : IsConnector w) (args : List Item) :
    emit graph var [call w args] = w ++ emit graph var [group args] := by
  have hnative : (call w (args.map (Item.inScope var))).native =
      [call w (nativeAll (args.map (Item.inScope var)))] := by
    rw [Item.native, nativeCall, hw.between, hw.test]
  rw [emit_group, emit, List.map_singleton, inScope_call, nativeAll_eq_flatMap,
    List.flatMap_singleton, hnative, bindModelTestAll_eq_map, List.map_singleton,
    bindModelTest_call, if_neg (Bool.eq_false_iff.mp hw.model), ← bindModelTestAll_eq_map,
    renderAll_singleton, Item.render, ← emit, List.append_assoc]

theorem native_inScope_between {name operator : Text} {args left right : List Item}
    (htidy : ∀ x ∈ args, x.Tidy) (hname : betweenOperator name = some operator)
    (hargs : arguments args = [left, right]) : ((call name args).inScope var).native =
      nativeAll (left.map (Item.inScope var)) ++
        symbol (' ' :: operator ++ [' ']) :: nativeAll (right.map (Item.inScope var)) := by
  have hscope : arguments (args.map (Item.inScope var)) =
      [left.map (Item.inScope var), right.map (Item.inScope var)] := by
    rw [arguments_inScope, hargs]
    rfl
  rw [inScope_call]
  exact native_between (List.forall_mem_map.mpr fun x hx => (htidy x hx).inScope var) hname hscope

theorem emit_between {name operator : Text} {args left right : List Item}
    (htidy : ∀ x ∈ args, x.Tidy) (hname : betweenOperator name = some operator)
    (hargs : arguments args = [left, right]) : emit graph var [call name args] =
      emit graph var left ++ (' ' :: operator ++ [' '] ++ emit graph var right) := by
  rw [emit, List.map_singleton, nativeAll_eq_flatMap, List.flatMap_singleton,
    native_inScope_between htidy hname hargs, bindModelTestAll_eq_map, List.map_append,
    List.map_cons, renderAll_append, renderAll, ← bindModelTestAll_eq_map,
    ← bindModelTestAll_eq_map, Item.bindModelTest, Item.render, ← emit, ← emit]

theorem native_inScope_test {name test : Text} {args operand : List Item}
    (htidy : ∀ x ∈ args, x.Tidy) (hname : nullTest name = some test)
    (hargs : arguments args = [operand]) (hne : operand ≠ []) :
    ((call name args).inScope var).native =
      nativeAll (operand.map (Item.inScope var)) ++ [symbol (' ' :: test)] := by
  have hscope : arguments (args.map (Item.inScope var)) = [operand.map (Item.inScope var)] := by
    rw [arguments_inScope, hargs]
    rfl
  rw [inScope_call]
  exact native_test (List.forall_mem_map.mpr fun x hx => (htidy x hx).inScope var) hname hscope
    (List.map_eq_nil_iff.not.mpr hne)

theorem emit_test {name test : Text} {args operand : List Item} (htidy : ∀ x ∈ args, x.Tidy)
    (hname : nullTest name = some test) (hargs : arguments args = [operand]) (hne : operand ≠ []) :
    emit graph var [call name args] = emit graph var operand ++ ' ' :: test := by
  rw [emit, List.map_singleton, nativeAll_eq_flatMap, List.flatMap_singleton,
    native_inScope_test htidy hname hargs hne, bindModelTestAll_eq_map, List.map_append,
    List.map_singleton, renderAll_append, renderAll_singleton, ← bindModelTestAll_eq_map,
    Item.bindModelTest, Item.render, ← emit]

end Emit

end TwinGraph
