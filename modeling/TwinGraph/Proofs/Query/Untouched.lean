import TwinGraph.Proofs.Query.Nesting

/-! What the translation of conditions leaves alone. The literals stay, the model tests get their
new name and nothing else happens to them, and a condition with nothing to translate in it comes out
as it is. -/
namespace TwinGraph

open Query

namespace Item

def aliased (var : Option Text) (items : List Item) : List Item :=
  match var with
  | some var => qualifyAll var items
  | none => items

def translated (graph : Text) (var : Option Text) (items : List Item) : List Item :=
  bracketAll (bindModelTestAll graph var (nativeAll (aliased var items)))

def isModelTest (name : Text) : Bool := name.sameLetters "IS_OF_MODEL"

def graphTest (graph : Text) : Text := Text.joined [graph, ".is_of_model"]

/-- A model test has its old or its new name. -/
def isModelName (graph name : Text) : Bool := isModelTest name || name == graphTest graph

def modelCall? (graph : Text) : Item → Option (Text × List Item)
  | call name args => if isModelName graph name then some (name, args) else none
  | word _ | literal _ | space _ | symbol _ | group _ => none

/-- The model tests at any depth, from left to right, an outer one in front of those inside. -/
def modelCalls (graph : Text) (items : List Item) : List (Text × List Item) :=
  (partsAll items).filterMap (modelCall? graph)

def operatorFunctions : List Text := ["STARTSWITH", "ENDSWITH", "CONTAINS", "IS_NULL", "IS_DEFINED"]

def mappedFunctions : List Text := "IS_OF_MODEL" :: operatorFunctions

/-! ### Names -/

theorem operator_of_isSome {name : Text}
    (h : (betweenOperator name).isSome ∨ (nullTest name).isSome) :
    operatorFunctions.any (Text.sameLetters name) = true := by
  have hany : ∀ k ∈ operatorFunctions, name.sameLetters k = true →
      operatorFunctions.any (Text.sameLetters name) = true :=
    fun k hk hname => List.any_eq_true.mpr ⟨k, hk, hname⟩
  rcases h with h | h
  · obtain ⟨operator, hoperator⟩ := Option.isSome_iff_exists.mp h
    rcases betweenOperator_eq_some hoperator with ⟨hname, -⟩ | ⟨hname, -⟩ | ⟨hname, -⟩
    all_goals exact hany _ (by simp [operatorFunctions]) hname
  · obtain ⟨test, htest⟩ := Option.isSome_iff_exists.mp h
    rcases nullTest_eq_some htest with ⟨hname, -⟩ | ⟨hname, -⟩
    all_goals exact hany _ (by simp [operatorFunctions]) hname

theorem length_of_operator {name : Text}
    (h : operatorFunctions.any (Text.sameLetters name) = true) : name.length ≤ 10 := by
  obtain ⟨k, hk, hname⟩ := List.any_eq_true.mp h
  have hlengths : ∀ k ∈ operatorFunctions, k.length ≤ 10 := by decide
  rw [length_of_sameLetters hname]
  exact hlengths k hk

theorem length_graphTest (graph : Text) : (graphTest graph).length = graph.length + 12 := by
  simp [graphTest]

theorem length_of_isModelName {graph name : Text} (h : isModelName graph name = true) :
    11 ≤ name.length := by
  rw [isModelName, Bool.or_eq_true, beq_iff_eq] at h
  rcases h with h | rfl
  · exact (length_of_sameLetters h).ge
  · rw [length_graphTest]
    omega

theorem isModelTest_graphTest (graph : Text) : isModelTest (graphTest graph) = false := by
  refine Bool.eq_false_iff.mpr fun h => ?_
  have hlength : (graphTest graph).length = 11 := length_of_sameLetters h
  rw [length_graphTest] at hlength
  omega

/-! ### The model tests -/

section ModelCalls

variable {graph : Text}

theorem modelCalls_eq_flatMap (items : List Item) :
    modelCalls graph items = items.flatMap fun x => modelCalls graph [x] := by
  simp [modelCalls, partsAll_eq_flatMap, List.filterMap_flatMap]

theorem modelCalls_append (items items' : List Item) :
    modelCalls graph (items ++ items') = modelCalls graph items ++ modelCalls graph items' := by
  simp only [modelCalls, partsAll_eq_flatMap, List.flatMap_append, List.filterMap_append]

theorem modelCalls_leaf {x : Item} (h : x.isLeaf = true) : modelCalls graph [x] = [] := by
  rw [modelCalls, partsAll_singleton, parts_leaf h]
  cases x with
  | call | group => cases h
  | word | literal | space | symbol => rfl

theorem modelCalls_leaves {items : List Item} (h : ∀ x ∈ items, x.isLeaf = true) :
    modelCalls graph items = [] := by
  rw [modelCalls_eq_flatMap, List.flatMap_eq_nil_iff]
  exact fun x hx => modelCalls_leaf (h x hx)

theorem modelCalls_call (name : Text) (args : List Item) : modelCalls graph [call name args] =
    (if isModelName graph name then [(name, args)] else []) ++ modelCalls graph args := by
  rw [modelCalls, partsAll_singleton, parts, List.filterMap_cons, modelCall?, modelCalls]
  cases isModelName graph name <;> rfl

theorem modelCalls_group (items : List Item) :
    modelCalls graph [group items] = modelCalls graph items := by
  rw [modelCalls, partsAll_singleton, parts, List.filterMap_cons, modelCall?, modelCalls]

theorem mem_modelCalls {name : Text} {args items : List Item} :
    (name, args) ∈ modelCalls graph items ↔
      call name args ∈ partsAll items ∧ isModelName graph name = true := by
  rw [modelCalls, List.mem_filterMap]
  constructor
  · rintro ⟨item, hitem, hcall⟩
    cases item with
    | call name' args' =>
      rw [modelCall?] at hcall
      split at hcall
      · next hname =>
        cases hcall
        exact ⟨hitem, hname⟩
      · cases hcall
    | word | literal | space | symbol | group => cases hcall
  · rintro ⟨hitem, hname⟩
    exact ⟨_, hitem, by rw [modelCall?, if_pos hname]⟩

/-- What holds of the model tests of each item holds of those of all items. -/
theorem modelCalls_flatMap {f : Item → List Item} {g : Text × List Item → Text × List Item}
    {items : List Item}
    (h : ∀ x ∈ items, modelCalls graph (f x) = (modelCalls graph [x]).map g) :
    modelCalls graph (items.flatMap f) = (modelCalls graph items).map g := by
  induction items with
  | nil => rfl
  | cons item items ih =>
    rw [List.forall_mem_cons] at h
    rw [List.flatMap_cons, modelCalls_append, h.1, ih h.2, ← List.map_append, ← modelCalls_append,
      List.singleton_append]

theorem modelCalls_native (item : Item) : modelCalls graph item.native =
    (modelCalls graph [item]).map fun (name, args) => (name, nativeAll args) := by
  induction item using nested_induction with
  | leaf x hx => rw [native_leaf hx, modelCalls_leaf hx, List.map_nil]
  | group items ih =>
    rw [native, modelCalls_group, modelCalls_group, nativeAll_eq_flatMap]
    exact modelCalls_flatMap ih
  | call name args ih =>
    have hargs := modelCalls_flatMap ih
    rw [← nativeAll_eq_flatMap] at hargs
    have hcall : modelCalls graph [call name (nativeAll args)] =
        (modelCalls graph [call name args]).map fun (name, args) => (name, nativeAll args) := by
      rw [modelCalls_call, modelCalls_call, List.map_append, hargs]
      split <;> rfl
    rw [native]
    rcases nativeCall_cases name (nativeAll args) with hkept | ⟨hoperator, hkept⟩
    · rw [hkept, hcall]
    · have hsilent : Silent fun x => modelCalls graph [x] :=
        ⟨fun s => modelCalls_leaf rfl, fun s => modelCalls_leaf rfl⟩
      have hother : isModelName graph name = false := by
        refine Bool.eq_false_iff.mpr fun hname => ?_
        have hshort := length_of_operator (operator_of_isSome hoperator)
        have hlong := length_of_isModelName hname
        omega
      rw [modelCalls_eq_flatMap, hkept hsilent, ← modelCalls_eq_flatMap, hargs, modelCalls_call,
        hother]
      rfl

end ModelCalls

/-! ### Passes that keep the shape of the tree -/

theorem map_of_fixed {f : Item → Item} {items : List Item} (h : ∀ x ∈ items, f x = x) :
    items.map f = items :=
  (List.map_congr_left h).trans (List.map_id' items)

/-- Leaves stay leaves and groups stay groups; calls may get another name, and more leaves in front
of their arguments. -/
structure Walks (f : Item → Item) (name : Text → Text) (before : Text → List Item) : Prop where
  leaf : ∀ x, x.isLeaf = true → (f x).isLeaf = true
  call : ∀ n args, f (Item.call n args) = Item.call (name n) (before n ++ args.map f)
  group : ∀ items, f (Item.group items) = Item.group (items.map f)
  added : ∀ n, ∀ x ∈ before n, x.isLeaf = true

section Walking

variable {f : Item → Item} {name : Text → Text} {before : Text → List Item}

theorem Walks.modelCalls (h : Walks f name before) {graph : Text}
    (hname : ∀ n, isModelName graph (name n) = isModelName graph n) (items : List Item) :
    Item.modelCalls graph (items.map f) =
      (Item.modelCalls graph items).map fun (n, args) => (name n, before n ++ args.map f) := by
  have hsingle : ∀ item : Item, Item.modelCalls graph [f item] =
      (Item.modelCalls graph [item]).map fun (n, args) => (name n, before n ++ args.map f) := by
    intro item
    induction item using nested_induction with
    | leaf x hx => rw [modelCalls_leaf (h.leaf x hx), modelCalls_leaf hx, List.map_nil]
    | group items ih =>
      rw [h.group, modelCalls_group, modelCalls_group, List.map_eq_flatMap]
      exact modelCalls_flatMap ih
    | call n args ih =>
      have hargs := modelCalls_flatMap ih
      rw [← List.map_eq_flatMap] at hargs
      rw [h.call, modelCalls_call, modelCalls_call, hname, modelCalls_append,
        modelCalls_leaves (h.added n), List.nil_append, hargs, List.map_append]
      cases isModelName graph n <;> rfl
  rw [List.map_eq_flatMap]
  exact modelCalls_flatMap fun x _ => hsingle x

/-- A tree in which nothing is changed stays as it is. -/
theorem Walks.fixed (h : Walks f name before) {items : List Item}
    (hleaf : ∀ x ∈ partsAll items, x.isLeaf = true → f x = x)
    (hcall : ∀ n args, Item.call n args ∈ partsAll items → name n = n ∧ before n = []) :
    items.map f = items := by
  refine map_of_fixed (parts_induction hleaf (fun n args hmem ih => ?_) fun inner ih => ?_)
  · obtain ⟨hkept, hbefore⟩ := hcall n args hmem
    rw [h.call, hkept, hbefore, map_of_fixed ih, List.nil_append]
  · rw [h.group, map_of_fixed ih]

end Walking

theorem walks_qualify (var : Text) : Walks (qualify var) id fun _ => [] where
  leaf x hx := by
    cases x with
    | word w =>
      rw [qualify]
      split <;> rfl
    | literal | space | symbol => rfl
    | call | group => cases hx
  call n args := by rw [qualify, qualifyAll_eq_map]; rfl
  group items := by rw [qualify, qualifyAll_eq_map]
  added _ _ hx := absurd hx List.not_mem_nil

theorem walks_bracket : Walks bracket id fun _ => [] where
  leaf x hx := by
    cases x with
    | word | literal | space | symbol => rfl
    | call | group => cases hx
  call n args := by rw [bracket, bracketAll_eq_map]; rfl
  group items := by rw [bracket, bracketAll_eq_map]
  added _ _ hx := absurd hx List.not_mem_nil

theorem walks_bindModelTest (graph : Text) (var : Option Text) :
    Walks (bindModelTest graph var) (fun n => if isModelTest n then graphTest graph else n)
      (fun n => if isModelTest n then modelSubject var else []) where
  leaf x hx := by rwa [bindModelTest_leaf hx]
  call n args := by
    rw [bindModelTest_call, ← isModelTest]
    cases isModelTest n <;> rfl
  group items := by rw [bindModelTest, bindModelTestAll_eq_map]
  added n x hx := by
    split at hx
    · cases var with
      | none => cases hx
      | some v =>
        have hleaves : ∀ x ∈ [word v, symbol [',']], x.isLeaf = true := by simp [isLeaf]
        exact hleaves x hx
    · cases hx

/-! ### Together -/

theorem nativeAll_fixed {items : List Item}
    (h : ∀ name args, call name args ∈ partsAll items →
      operatorFunctions.any (Text.sameLetters name) = false) : nativeAll items = items := by
  have hsame : ∀ inner : List Item, (∀ x ∈ inner, x.native = [x]) → nativeAll inner = inner := by
    intro inner hinner
    rw [nativeAll_eq_flatMap, List.flatMap_congr hinner, List.flatMap_singleton']
  refine hsame items (parts_induction (fun x _ hx => native_leaf hx) (fun name args hmem ih => ?_)
    fun inner ih => ?_)
  · rw [native, hsame args ih]
    rcases nativeCall_cases name args with hkept | ⟨hoperator, -⟩
    · exact hkept
    · have hnone := h name args hmem
      rw [operator_of_isSome hoperator] at hnone
      cases hnone
  · rw [native, hsame inner ih]

theorem bracketPath_cons {c : Char} (hc : (c == '.') = false) (s : Text) :
    bracketPath (c :: s) = c :: bracketPath s := by
  obtain ⟨first, steps, hs⟩ := List.exists_cons_of_ne_nil (Text.pieces_ne_nil (· == '.') s)
  rw [bracketPath, bracketPath, Text.pieces, if_neg (by simp [hc]), hs]
  rfl

theorem bracketPath_point {s : Text} (hs : s.head? ≠ some '$') :
    bracketPath ('.' :: s) = '.' :: bracketPath s := by
  obtain ⟨first, steps, hpieces⟩ := List.exists_cons_of_ne_nil (Text.pieces_ne_nil (· == '.') s)
  have hfirst : first.head? ≠ some '$' := by
    cases s with
    | nil =>
      cases hpieces
      exact hs
    | cons c s =>
      rw [Text.pieces] at hpieces
      split at hpieces
      · cases hpieces
        simp
      · split at hpieces
        · cases hpieces
          exact hs
        · cases hpieces
          exact hs
  have hcut : Text.pieces (· == '.') ('.' :: s) = [] :: first :: steps := by
    rw [← hpieces, Text.pieces]
    rfl
  rw [bracketPath, bracketPath, hcut, hpieces]
  simp [pathStep_plain hfirst]

theorem bracketPath_fixed {w : Text} (h : hasDollarStep w = false) : bracketPath w = w := by
  induction w with
  | nil => rfl
  | cons c s ih =>
    rw [hasDollarStep_cons, Bool.or_eq_false_iff] at h
    cases hc : (c == '.') with
    | false => rw [bracketPath_cons hc, ih h.2]
    | true =>
      rw [beq_iff_eq] at hc
      subst hc
      have hs : s.head? ≠ some '$' := by simpa using h.1
      rw [bracketPath_point hs, ih h.2]

theorem literalsAll_translated (graph : Text) (var : Option Text) (items : List Item) :
    literalsAll (translated graph var items) = literalsAll items := by
  rw [translated, literals_bracketAll, literals_bindModelTestAll, literals_nativeAll]
  cases var with
  | none => rfl
  | some v => exact literals_qualifyAll v items

theorem modelCalls_nativeAll (graph : Text) (items : List Item) :
    modelCalls graph (nativeAll items) =
      (modelCalls graph items).map fun (name, args) => (name, nativeAll args) := by
  rw [nativeAll_eq_flatMap]
  exact modelCalls_flatMap fun x _ => modelCalls_native x

theorem modelCalls_aliased (graph : Text) (var : Option Text) (items : List Item) :
    modelCalls graph (aliased var items) =
      (modelCalls graph items).map fun (name, args) => (name, aliased var args) := by
  cases var with
  | none => exact (List.map_id' _).symm
  | some v =>
    have hname : ∀ n, isModelName graph (id n) = isModelName graph n := fun _ => rfl
    have hwalks := (walks_qualify v).modelCalls hname items
    simp only [aliased, qualifyAll_eq_map]
    exact hwalks

theorem modelCalls_translated (graph : Text) {var : Option Text}
    (hvar : ∀ v ∈ var, isIdentifier v = true) (items : List Item) :
    modelCalls graph (translated graph var items) = (modelCalls graph items).map
      fun (name, args) => (graphTest graph,
        (if isModelTest name then modelSubject var else []) ++ translated graph var args) := by
  have hpoint : ∀ v ∈ var, ∀ c ∈ v, (c == '.') = false := fun v hv =>
    IsSegment.not_point ⟨[], v, rfl, by simp, hvar v hv⟩
  have hbound : ∀ n, isModelName graph (if isModelTest n then graphTest graph else n) =
      isModelName graph n := by
    intro n
    cases htest : isModelTest n with
    | false => rfl
    | true => simp [isModelName, htest]
  rw [translated, bracketAll_eq_map, walks_bracket.modelCalls fun _ => rfl,
    bindModelTestAll_eq_map, (walks_bindModelTest graph var).modelCalls hbound,
    modelCalls_nativeAll, modelCalls_aliased, List.map_map, List.map_map, List.map_map]
  refine List.map_congr_left fun (name, args) hmem => ?_
  have hname : (if isModelTest name then graphTest graph else name) = graphTest graph := by
    have hmodel := (mem_modelCalls.mp hmem).2
    rw [isModelName, Bool.or_eq_true, beq_iff_eq] at hmodel
    split
    · rfl
    · next htest => exact hmodel.resolve_left htest
  have hsubject : (if isModelTest name then modelSubject var else []).map bracket =
      if isModelTest name then modelSubject var else [] := by
    split
    · exact modelSubject_bracket hpoint
    · rfl
  simp only [Function.comp_apply, id_eq, hname, List.nil_append, List.map_append, hsubject,
    translated, bracketAll_eq_map, bindModelTestAll_eq_map]

/-- None keeps its old name: it would be among the model tests, and they all have the new one. -/
theorem not_isModelTest_of_mem_translated {graph : Text} {var : Option Text}
    (hvar : ∀ v ∈ var, isIdentifier v = true) {items args : List Item} {name : Text}
    (h : call name args ∈ partsAll (translated graph var items)) : isModelTest name = false := by
  refine Bool.eq_false_iff.mpr fun htest => ?_
  have hnew : (name, args) ∈ modelCalls graph (translated graph var items) :=
    mem_modelCalls.mpr ⟨h, by rw [isModelName, htest, Bool.true_or]⟩
  rw [modelCalls_translated graph hvar, List.mem_map] at hnew
  obtain ⟨⟨name', args'⟩, -, heq⟩ := hnew
  cases heq
  rw [isModelTest_graphTest] at htest
  cases htest

/-- Without an alias, steps in brackets and calls to translate there is nothing to do. -/
theorem translated_fixed (graph : Text) {items : List Item}
    (hwords : ∀ w, word w ∈ partsAll items → hasDollarStep w = false)
    (hnames : ∀ name args, call name args ∈ partsAll items →
      mappedFunctions.any (Text.sameLetters name) = false) : translated graph none items = items := by
  have hnames' : ∀ name args, call name args ∈ partsAll items → isModelTest name = false ∧
      operatorFunctions.any (Text.sameLetters name) = false := by
    intro name args hmem
    have hname := hnames name args hmem
    rwa [mappedFunctions, List.any_cons, Bool.or_eq_false_iff] at hname
  have hbound : bindModelTestAll graph none items = items := by
    rw [bindModelTestAll_eq_map]
    refine (walks_bindModelTest graph none).fixed (fun x _ hx => bindModelTest_leaf hx)
      fun name args hmem => ?_
    rw [(hnames' name args hmem).1]
    exact ⟨rfl, rfl⟩
  have hbracket : bracketAll items = items := by
    rw [bracketAll_eq_map]
    refine walks_bracket.fixed (fun x hmem hx => ?_) fun _ _ _ => ⟨rfl, rfl⟩
    cases x with
    | word w => rw [bracket, bracketPath_fixed (hwords w hmem)]
    | literal | space | symbol => rfl
    | call | group => cases hx
  rw [translated, aliased, nativeAll_fixed fun name args hmem => (hnames' name args hmem).2,
    hbound, hbracket]

end Item

namespace Query

open Item

/-- Translating a balanced condition leaves everything else as it was. It always has a result; the
literals of its tree are those of the condition, in the same order. The model tests are those of the
condition, at any depth and in the same order: they all have the name of the graph's function, and
those that got it have the alias in front of their arguments, if one is taken. And where there is no
alias, no step with a dollar sign and no call that becomes something else, the condition comes out
character for character. -/
theorem conditionText_leaves_the_rest {graph : Text} {var : Option Text}
    (hvar : ∀ v ∈ var, isIdentifier v = true) {s : Text} (hs : Balanced (outside s)) :
    ∃ items, readItems s = .ok items ∧
      conditionText graph var s = .ok (renderAll (translated graph var items)) ∧
      literalsAll (translated graph var items) = literalsAll items ∧
      modelCalls graph (translated graph var items) = (modelCalls graph items).map
        (fun (name, args) => (graphTest graph,
          (if isModelTest name then modelSubject var else []) ++ translated graph var args)) ∧
      (∀ name args, call name args ∈ partsAll (translated graph var items) →
        isModelTest name = false) ∧
      (var = none → (∀ w, word w ∈ partsAll items → hasDollarStep w = false) →
        (∀ name args, call name args ∈ partsAll items →
          mappedFunctions.any (Text.sameLetters name) = false) →
        conditionText graph var s = .ok s) := by
  obtain ⟨items, hitems⟩ := (exists_ofText?_iff s).mpr hs
  have hread : readItems s = .ok items := by rw [readItems, hitems]
  have htext : conditionText graph var s = .ok (renderAll (translated graph var items)) := by
    rw [conditionText, hread]
    cases var <;> rfl
  refine ⟨items, hread, htext, literalsAll_translated graph var items,
    modelCalls_translated graph hvar items, fun _ _ => not_isModelTest_of_mem_translated hvar, ?_⟩
  rintro rfl hwords hnames
  have hrender : renderAll items = s := by
    rw [← flatten_tokensAll, tokensAll_ofText? hitems, Token.flatten_ofText]
  rw [htext, translated_fixed graph hwords hnames, hrender]

def testText : Text :=
  "IS_OF_MODEL('a') AND (f(is_of_model('b')) OR STARTSWITH(name, '.$'))"

def testItems : List Item :=
  [.call "IS_OF_MODEL" [.literal "'a'"], .space " ", .word "AND", .space " ",
    .group [.call "f" [.call "is_of_model" [.literal "'b'"]], .space " ", .word "OR", .space " ",
      .call "STARTSWITH" [.word "name", .symbol ",", .space " ", .literal "'.$'"]]]

def plainText : Text := "STARTS(x.y, '.$') OR ( x )"

def plainItems : List Item :=
  [.call "STARTS" [.word "x.y", .symbol ",", .space " ", .literal "'.$'"], .space " ", .word "OR",
    .space " ", .group [.space " ", .word "x", .space " "]]

/-- Both model tests get the alias, wherever they stand. The other condition has a dollar sign in a
literal only and a call that is no operator, and without an alias it stays as it is. -/
theorem nested_tests_are_bound :
    (∀ v ∈ some "T".toList, isIdentifier v = true) ∧ Balanced (outside testText) ∧
    readItems testText = .ok testItems ∧
    conditionText "g" (some "T") testText =
      .ok "g.is_of_model(T,'a') AND (f(g.is_of_model(T,'b')) OR T.name STARTS WITH '.$')" ∧
    literalsAll (translated "g" (some "T") testItems) = ["'a'".toList, "'b'".toList, "'.$'".toList] ∧
    modelCalls "g" (translated "g" (some "T") testItems) =
      [(graphTest "g", [.word "T", .symbol ",", .literal "'a'"]),
        (graphTest "g", [.word "T", .symbol ",", .literal "'b'"])] ∧
    Balanced (outside plainText) ∧ conditionText "g" none plainText = .ok plainText := by
  have hvar : ∀ v ∈ some "T".toList, isIdentifier v = true := by
    rintro v ⟨⟩
    decide
  have hbalanced : Balanced (outside testText) := by decide +kernel
  have hplain : Balanced (outside plainText) := by decide +kernel
  have hread : readItems testText = .ok testItems := by
    have htokens : Token.ofText testText = tokensAll testItems := by decide +kernel
    exact readItems_of_tokens htokens rfl
  have hreadPlain : readItems plainText = .ok plainItems := by
    have htokens : Token.ofText plainText = tokensAll plainItems := by decide +kernel
    exact readItems_of_tokens htokens rfl
  obtain ⟨items, hitems, -, hliterals, hcalls, -⟩ :=
    @conditionText_leaves_the_rest "g" (some "T") hvar _ hbalanced
  rw [hread] at hitems
  cases hitems
  obtain ⟨items, hitems, -, -, -, -, hsame⟩ :=
    @conditionText_leaves_the_rest "g" none (by simp) _ hplain
  rw [hreadPlain] at hitems
  cases hitems
  refine ⟨hvar, hbalanced, hread, by decide +kernel, hliterals, hcalls, hplain,
    hsame rfl (fun w hw => ?_) fun name args hmem => ?_⟩
  · simp [plainItems, partsAll, parts] at hw
    rcases hw with rfl | rfl | rfl <;> decide
  · simp [plainItems, partsAll, parts] at hmem
    rw [hmem.1]
    decide

end Query
end TwinGraph
