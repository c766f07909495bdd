import TwinGraph.Query.Cypher
import TwinGraph.Proofs.Query.Tokens

/-! The literals of an expression: grouping the tokens and each change on the way to Cypher keep all
of them in order, and they stand in the written text in this order. -/
namespace TwinGraph

/-- The parts stand in the text one behind the other. -/
inductive Holds : List Text → Text → Prop where
  | nil (s) : Holds [] s
  | cons (front part) {parts rest} : Holds parts rest → Holds (part :: parts) (front ++ part ++ rest)

namespace Holds

variable {parts parts' : List Text} {s t : Text}

theorem prepend (t : Text) (h : Holds parts s) : Holds parts (t ++ s) := by
  cases h with
  | nil => exact .nil _
  | @cons front part parts rest hrest =>
    have hcons : Holds (part :: parts) ((t ++ front) ++ part ++ rest) := .cons _ _ hrest
    simpa only [List.append_assoc] using hcons

theorem append (h : Holds parts s) (h' : Holds parts' t) : Holds (parts ++ parts') (s ++ t) := by
  induction h with
  | nil s => exact h'.prepend s
  | cons front part _ ih =>
    have hcons := Holds.cons front part ih
    simpa only [List.append_assoc, List.cons_append] using hcons

theorem sublist (h : Holds parts s) (hsub : List.Sublist parts' parts) : Holds parts' s := by
  induction h generalizing parts' with
  | nil s =>
    rw [List.sublist_nil.mp hsub]
    exact .nil s
  | cons front part _ ih =>
    cases hsub with
    | cons _ hsub => exact (ih hsub).prepend _
    | cons_cons _ hsub => exact .cons _ _ (ih hsub)

theorem isInfix (h : Holds parts s) : ∀ part ∈ parts, part <:+: s := by
  induction h with
  | nil s => exact fun _ hp => absurd hp List.not_mem_nil
  | cons front part _ ih =>
    rw [List.forall_mem_cons]
    exact ⟨⟨front, _, rfl⟩, fun other hother =>
      (ih other hother).trans (List.suffix_append _ _).isInfix⟩

end Holds

namespace Item

mutual

def literals : Item → List Text
  | word _ => []
  | literal s => [s]
  | space _ => []
  | symbol _ => []
  | call _ args => literalsAll args
  | group items => literalsAll items

def literalsAll : List Item → List Text
  | [] => []
  | item :: items => item.literals ++ literalsAll items

end

theorem literalsAll_append (items items' : List Item) :
    literalsAll (items ++ items') = literalsAll items ++ literalsAll items' := by
  induction items with
  | nil => rfl
  | cons item items ih => rw [List.cons_append, literalsAll, literalsAll, ih, List.append_assoc]

theorem literalsAll_singleton (item : Item) : literalsAll [item] = item.literals := by
  rw [literalsAll, literalsAll, List.append_nil]

theorem literalsAll_reverse_cons (item : Item) (items : List Item) :
    literalsAll (item :: items).reverse = literalsAll items.reverse ++ item.literals := by
  rw [List.reverse_cons, literalsAll_append, literalsAll_singleton]

theorem literals_close (f : Frame) (inner : List Item) :
    (f.close inner).literals = literalsAll inner := by
  unfold Frame.close
  split <;> rw [literals]

theorem literals_after (items : List Item) :
    literalsAll (Frame.after items).before.reverse = literalsAll items.reverse := by
  unfold Frame.after
  split
  · rw [literalsAll_reverse_cons, literals, List.append_nil]
  · rfl

/-- The literals in front of the innermost open parenthesis. -/
def literalsBefore (frames : List Frame) : List Text :=
  frames.reverse.flatMap fun f => literalsAll f.before.reverse

theorem literalsBefore_cons (f : Frame) (frames : List Frame) :
    literalsBefore (f :: frames) = literalsBefore frames ++ literalsAll f.before.reverse := by
  unfold literalsBefore
  rw [List.reverse_cons, List.flatMap_append, List.flatMap_singleton]

theorem assemble_literals {frames : List Frame} {items out : List Item} {tokens : List Token}
    (h : assemble frames items tokens = some out) :
    literalsAll out = literalsBefore frames ++ literalsAll items.reverse ++
      tokens.filterMap Token.literal? := by
  fun_induction assemble frames items tokens with
  | case1 items =>
    cases h
    rw [List.filterMap_nil, List.append_nil]
    rfl
  | case2 => cases h
  | case3 frames items rest ih =>
    rw [ih h, literalsBefore_cons, literals_after, List.filterMap_cons_none rfl, List.reverse_nil,
      literalsAll, List.append_nil]
  | case4 => cases h
  | case5 frame frames items rest ih =>
    rw [ih h, literalsAll_reverse_cons, literals_close, literalsBefore_cons,
      List.filterMap_cons_none rfl]
    simp only [List.append_assoc]
  | case6 frames items s rest ih =>
    rw [ih h, literalsAll_reverse_cons, literals, List.append_nil, List.filterMap_cons_none rfl]
  | case7 frames items s rest ih =>
    rw [ih h, literalsAll_reverse_cons, literals, Token.filterMap_literal]
    simp only [List.append_assoc, List.singleton_append]
  | case8 frames items s rest ih =>
    rw [ih h, literalsAll_reverse_cons, literals, List.append_nil, List.filterMap_cons_none rfl]
  | case9 frames items s rest ih =>
    rw [ih h, literalsAll_reverse_cons, literals, List.append_nil, List.filterMap_cons_none rfl]

theorem literals_ofText? {s : Text} {items : List Item} (h : ofText? s = some items) :
    literalsAll items = (Token.ofText s).filterMap Token.literal? := assemble_literals h

mutual

theorem literals_qualify (var : Text) : (item : Item) → (item.qualify var).literals = item.literals
  | word w => by
    rw [qualify]
    split <;> rfl
  | literal s | space s | symbol s => by rw [qualify]
  | call name args => by rw [qualify, literals, literals, literals_qualifyAll]
  | group items => by rw [qualify, literals, literals, literals_qualifyAll]

theorem literals_qualifyAll (var : Text) : (items : List Item) →
    literalsAll (qualifyAll var items) = literalsAll items
  | [] => by rw [qualifyAll]
  | item :: items => by
    rw [qualifyAll, literalsAll, literalsAll, literals_qualify, literals_qualifyAll]

end

/-! ### What a call keeps when it becomes an operator -/

/-- Spaces and symbols have nothing of what is looked for. -/
structure Silent {α : Type} (f : Item → List α) : Prop where
  space : ∀ s, f (space s) = []
  symbol : ∀ s, f (symbol s) = []

section Silence

variable {α : Type} {f : Item → List α}

theorem Silent.of_spaces (hf : Silent f) {items : List Item} (h : items.all isSpace = true) :
    items.flatMap f = [] := by
  rw [List.flatMap_eq_nil_iff]
  intro item hitem
  have hspace := List.all_eq_true.mp h item hitem
  cases item with
  | space s => exact hf.space s
  | word | literal | symbol | call | group => cases hspace

theorem Silent.flatMap_dropWhile (hf : Silent f) (items : List Item) :
    (items.dropWhile isSpace).flatMap f = items.flatMap f := by
  have hspaces := hf.of_spaces (List.all_takeWhile (p := isSpace) (l := items))
  have hsplit : items.takeWhile isSpace ++ items.dropWhile isSpace = items :=
    List.takeWhile_append_dropWhile
  rw [← hsplit, List.flatMap_append, hspaces, List.nil_append, hsplit]

theorem Silent.reverse (hf : Silent f) : Silent (List.reverse ∘ f) :=
  ⟨fun s => congrArg List.reverse (hf.space s), fun s => congrArg List.reverse (hf.symbol s)⟩

theorem Silent.flatMap_trimSpaces (hf : Silent f) (items : List Item) :
    (trimSpaces items).flatMap f = items.flatMap f := by
  rw [trimSpaces, List.flatMap_reverse, hf.reverse.flatMap_dropWhile, ← List.flatMap_reverse,
    List.reverse_reverse, hf.flatMap_dropWhile]

theorem Silent.flatMap_commaPieces (hf : Silent f) (items : List Item) :
    (commaPieces items).flatMap (·.flatMap f) = items.flatMap f := by
  induction items with
  | nil => rfl
  | cons item items ih =>
    rw [commaPieces, List.flatMap_cons]
    split
    · next hcomma =>
      have hnone : f item = [] := by
        cases item with
        | symbol s => exact hf.symbol s
        | word | literal | space | call | group => cases hcomma
      rw [List.flatMap_cons, ih, hnone]
      rfl
    · split
      · next hnil =>
        rw [hnil] at ih
        rw [List.flatMap_singleton, List.flatMap_singleton, ← ih, List.flatMap_nil,
          List.append_nil]
      · next piece rest hcons =>
        rw [hcons, List.flatMap_cons] at ih
        rw [List.flatMap_cons, List.flatMap_cons, List.append_assoc, ih]

theorem Silent.flatMap_arguments (hf : Silent f) {args left right : List Item}
    (h : arguments args = [left, right]) :
    left.flatMap f ++ right.flatMap f = args.flatMap f := by
  unfold arguments at h
  split at h
  · cases h
  · have htrim : ((commaPieces args).map trimSpaces).flatMap (·.flatMap f) =
        (commaPieces args).flatMap (·.flatMap f) := by
      rw [List.flatMap_map]
      exact congrArg (List.flatMap · _) (funext hf.flatMap_trimSpaces)
    rw [← hf.flatMap_commaPieces args, ← htrim, h, List.flatMap_cons, List.flatMap_singleton]

end Silence

/-- A call stays as it is, or it is one of those with an operator and only spaces, commas and its
name are lost. -/
theorem nativeCall_cases (name : Text) (args : List Item) :
    nativeCall name args = [call name args] ∨
    ((betweenOperator name).isSome ∨ (nullTest name).isSome) ∧
      ∀ {α : Type} {f : Item → List α}, Silent f →
        (nativeCall name args).flatMap f = args.flatMap f := by
  unfold nativeCall
  split
  · next operator hoperator =>
    split
    · next left right hargs =>
      refine Or.inr ⟨Or.inl (by rw [hoperator]; rfl), fun hf => ?_⟩
      rw [List.flatMap_append, List.flatMap_cons, hf.symbol, List.nil_append, hf.flatMap_arguments hargs]
    · exact Or.inl rfl
  · split
    · next test htest =>
      split
      · exact Or.inl rfl
      · refine Or.inr ⟨Or.inr (by rw [htest]; rfl), fun hf => ?_⟩
        rw [List.flatMap_append, List.flatMap_singleton, hf.symbol, List.append_nil, hf.flatMap_trimSpaces]
    · exact Or.inl rfl

theorem literalsAll_eq_flatMap (items : List Item) : literalsAll items = items.flatMap literals := by
  induction items with
  | nil => rfl
  | cons item items ih => rw [literalsAll, ih, List.flatMap_cons]

theorem literals_nativeCall (name : Text) (args : List Item) :
    literalsAll (nativeCall name args) = literalsAll args := by
  rcases nativeCall_cases name args with hcall | ⟨-, hkept⟩
  · rw [hcall, literalsAll_singleton, literals]
  · have hsilent : Silent literals := ⟨fun _ => rfl, fun _ => rfl⟩
    rw [literalsAll_eq_flatMap, hkept hsilent, literalsAll_eq_flatMap]

mutual

theorem literals_native : (item : Item) → literalsAll item.native = item.literals
  | word s | literal s | space s | symbol s => by rw [native, literalsAll_singleton]
  | call name args => by rw [native, literals_nativeCall, literals_nativeAll, literals]
  | group items => by rw [native, literalsAll_singleton, literals, literals, literals_nativeAll]

theorem literals_nativeAll : (items : List Item) →
    literalsAll (nativeAll items) = literalsAll items
  | [] => by rw [nativeAll]
  | item :: items => by
    rw [nativeAll, literalsAll_append, literalsAll, literals_native, literals_nativeAll]

end

mutual

theorem literals_bindModelTest (graph : Text) (var : Option Text) : (item : Item) →
    (item.bindModelTest graph var).literals = item.literals
  | word s | literal s | space s | symbol s => by rw [bindModelTest]
  | call name args => by
    have hargs := literals_bindModelTestAll graph var args
    unfold bindModelTest
    dsimp only
    rw [literals]
    split
    · cases var with
      | none => rw [literals, List.nil_append, hargs]
      | some var => rw [literals, literalsAll_append, hargs]; rfl
    · rw [literals, hargs]
  | group items => by rw [bindModelTest, literals, literals, literals_bindModelTestAll]

theorem literals_bindModelTestAll (graph : Text) (var : Option Text) : (items : List Item) →
    literalsAll (bindModelTestAll graph var items) = literalsAll items
  | [] => by rw [bindModelTestAll]
  | item :: items => by
    rw [bindModelTestAll, literalsAll, literalsAll, literals_bindModelTest,
      literals_bindModelTestAll]

end

mutual

theorem literals_bracket : (item : Item) → item.bracket.literals = item.literals
  | word w => by rw [bracket, literals, literals]
  | literal s | space s | symbol s => by rw [bracket]
  | call name args => by rw [bracket, literals, literals, literals_bracketAll]
  | group items => by rw [bracket, literals, literals, literals_bracketAll]

theorem literals_bracketAll : (items : List Item) →
    literalsAll (bracketAll items) = literalsAll items
  | [] => by rw [bracketAll]
  | item :: items => by
    rw [bracketAll, literalsAll, literalsAll, literals_bracket, literals_bracketAll]

end

mutual

theorem holds_render : (item : Item) → Holds item.literals item.render
  | word s | space s | symbol s => by
    rw [literals]
    exact .nil _
  | literal s => by
    rw [literals, render]
    have h : Holds [s] ([] ++ s ++ []) := .cons _ _ (.nil _)
    simpa using h
  | call name args => by
    have h := ((holds_renderAll args).append (.nil [')'])).prepend (name ++ ['('])
    rw [literals, render]
    simpa using h
  | group items => by
    have h := ((holds_renderAll items).append (.nil [')'])).prepend ['(']
    rw [literals, render]
    simpa using h

theorem holds_renderAll : (items : List Item) → Holds (literalsAll items) (renderAll items)
  | [] => .nil _
  | item :: items => by
    rw [literalsAll, renderAll]
    exact (holds_render item).append (holds_renderAll items)

end

end Item

namespace Query

/-- The string literals of the conditions stand in their Cypher text, in the same order. -/
theorem holds_conditionText {graph : Text} {var : Option Text} {s out : Text}
    (h : conditionText graph var s = .ok out) : Holds (literals s) out := by
  unfold conditionText readItems at h
  split at h
  case h_2 => cases h
  case h_1 items hitems =>
    cases h
    have hliterals : (Item.literalsAll items).filter isString = literals s := by
      rw [Item.literals_ofText? hitems, Token.literals_ofText]
    have hall : ∀ items' : List Item, Item.literalsAll items' = Item.literalsAll items →
        Holds (literals s) (Item.renderAll
          (Item.bracketAll (Item.bindModelTestAll graph var (Item.nativeAll items')))) := by
      intro items' heq
      have hholds := Item.holds_renderAll
        (Item.bracketAll (Item.bindModelTestAll graph var (Item.nativeAll items')))
      rw [Item.literals_bracketAll, Item.literals_bindModelTestAll, Item.literals_nativeAll,
        heq] at hholds
      rw [← hliterals]
      exact hholds.sublist List.filter_sublist
    cases var with
    | none => exact hall items rfl
    | some var => exact hall _ (Item.literals_qualifyAll var items)

end Query
end TwinGraph
