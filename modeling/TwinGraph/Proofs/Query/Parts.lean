import TwinGraph.Proofs.Query.Literals
import TwinGraph.Proofs.Query.Respacing
import TwinGraph.Proofs.Text.Pieces

/-! If every quote of an expression is closed, no part of it leaves one open, before and after the
changes on the way to Cypher. So the literals of the written text are those of its parts. -/
namespace TwinGraph

open Query Scan

def isPathChar (c : Char) : Bool := isNameChar c || c == '$' || c == '.'

def IsPath (s : Text) : Prop := ∀ c ∈ s, isPathChar c = true

def Quoteless (s : Text) : Prop := ∀ c ∈ s, isQuote c = false

instance (s : Text) : Decidable (Quoteless s) := inferInstanceAs (Decidable (∀ c ∈ s, _))

theorem IsPath.append {s t : Text} (hs : IsPath s) (ht : IsPath t) : IsPath (s ++ t) :=
  List.forall_mem_append.mpr ⟨hs, ht⟩

theorem Quoteless.append {s t : Text} (hs : Quoteless s) (ht : Quoteless t) : Quoteless (s ++ t) :=
  List.forall_mem_append.mpr ⟨hs, ht⟩

theorem isPathChar_of_isNameChar {c : Char} (h : isNameChar c = true) : isPathChar c = true := by
  unfold isPathChar
  rw [h]
  rfl

theorem not_quote_of_isPathChar {c : Char} (h : isPathChar c = true) :
    isQuote c = false ∧ c ≠ '\\' ∧ isBlank c = false := by
  unfold isPathChar at h
  rw [Bool.or_eq_true, Bool.or_eq_true, beq_iff_eq, beq_iff_eq] at h
  rcases h with (h | rfl) | rfl
  · refine ⟨not_quote_of_isNameChar h, ?_, ?_⟩
    · rintro rfl
      exact absurd h (by decide)
    · exact not_isBlank_of_isNameChar h
  · decide
  · decide

theorem IsPath.quoteless {s : Text} (h : IsPath s) : Quoteless s := fun c hc =>
  (not_quote_of_isPathChar (h c hc)).1

namespace Token

theorem scanName_isPath {s name rest : Text} (h : scanName s = some (name, rest)) :
    IsPath name := by
  cases s with
  | nil => cases h
  | cons c cs =>
    rw [scanName] at h
    split at h
    · next hstart =>
      simp only [Option.some.injEq, Prod.mk.injEq] at h
      obtain ⟨rfl, rfl⟩ := h
      exact List.forall_mem_cons.mpr
        ⟨isPathChar_of_isNameChar (isNameChar_of_isNameStart hstart), fun d hd =>
          isPathChar_of_isNameChar (List.all_eq_true.mp List.all_takeWhile d hd)⟩
    · cases h

theorem scanSegment_isPath {s segment rest : Text} (h : scanSegment s = some (segment, rest)) :
    IsPath segment := by
  simp only [scanSegment, Option.bind_eq_bind, Option.bind_eq_some_iff, Option.some.injEq,
    Prod.mk.injEq] at h
  obtain ⟨⟨name, s'⟩, hname, rfl, rfl⟩ := h
  refine IsPath.append (fun c hc => ?_) (scanName_isPath hname)
  have hdollar := List.all_eq_true.mp List.all_takeWhile c hc
  rw [beq_iff_eq] at hdollar
  rw [hdollar]
  decide

theorem scanPath_isPath {s path rest : Text} (h : scanPath s = some (path, rest)) :
    IsPath path := by
  have hmore : ∀ (bound : Nat) (s : Text), IsPath (upTo scanStep bound s).1.flatten := by
    intro bound
    induction bound with
    | zero => exact fun s c hc => absurd hc List.not_mem_nil
    | succ bound ih =>
      intro s
      rw [upTo]
      split
      · exact fun c hc => absurd hc List.not_mem_nil
      · next step rest hstep =>
        simp only [scanStep, Option.bind_eq_bind, Option.bind_eq_some_iff, Option.some.injEq,
          Prod.mk.injEq] at hstep
        obtain ⟨s₁, -, ⟨segment, s₂⟩, hsegment, rfl, rfl⟩ := hstep
        dsimp only
        rw [List.flatten_cons]
        exact IsPath.append (List.forall_mem_cons.mpr ⟨by decide, scanSegment_isPath hsegment⟩)
          (ih _)
  rw [scanPath_eq] at h
  simp only [Option.bind_eq_bind, Option.bind_eq_some_iff, Option.some.injEq,
    Prod.mk.injEq] at h
  obtain ⟨⟨first, s'⟩, hfirst, rfl, rfl⟩ := h
  exact (scanSegment_isPath hfirst).append (hmore _ _)

/-- The quotes of the token are closed, and the only literal in it is the token itself. -/
def Neat : Token → Prop
  | word w => IsPath w
  | literal s => Closed s ∧ Query.literals s = [s].filter isString
  | space s | symbol s => Quoteless s
  | opening | closing => True

theorem closeQuote_body {q : Char} {s body rest : Text} (h : closeQuote q s = some (body, rest)) :
    closeQuote q body = some (body, []) := by
  fun_induction closeQuote q s generalizing body with
  | case1 => cases h
  | case2 => cases h
  | case3 d ds ih =>
    obtain ⟨⟨inner, rest'⟩, hinner, heq⟩ := Option.map_eq_some_iff.mp h
    simp only [Prod.mk.injEq] at heq
    obtain ⟨rfl, rfl⟩ := heq
    rw [closeQuote_escape, ih hinner]
    rfl
  | case4 cs hslash =>
    simp only [Option.some.injEq, Prod.mk.injEq] at h
    obtain ⟨rfl, rfl⟩ := h
    exact closeQuote_close hslash []
  | case5 c cs hslash hquote ih =>
    obtain ⟨⟨inner, rest'⟩, hinner, heq⟩ := Option.map_eq_some_iff.mp h
    simp only [Prod.mk.injEq] at heq
    obtain ⟨rfl, rfl⟩ := heq
    rw [closeQuote_other hslash hquote, ih hinner]
    rfl

theorem closed_string {q : Char} (hq : isQuote q = true) {body : Text}
    (h : closeQuote q body = some (body, [])) :
    Closed (q :: body) ∧ Query.literals (q :: body) = [q :: body] := by
  have hlong : 1 < (q :: body).length := by
    have hpos := List.length_pos_iff.mpr (closeQuote_eq_some h).2
    rw [List.length_cons]
    omega
  have hclosed : Closed [] := fun _ h => absurd h List.not_mem_nil
  refine ⟨(closed_quote hq).mpr ⟨body, [], h, hclosed⟩, ?_⟩
  unfold Query.literals
  rw [marks_literal hq h, marks_nil, List.filter_cons_of_pos (by simpa using hlong)]
  rfl

theorem literals_of_quoteless {s : Text} (hs : Quoteless s) : Query.literals s = [] := by
  unfold Query.literals
  rw [marks_of_quoteless hs]
  rfl

theorem closed_of_scan {s rest : Text} {t : Token} (hs : Closed s) (h : scan s = some (t, rest)) :
    Closed rest := by
  cases scanned_of_scan h with
  | string hc hclose =>
    obtain ⟨body, rest', hclose', hrest⟩ := (closed_quote hc).mp hs
    rw [hclose] at hclose'
    cases hclose'
    exact hrest
  | lone hc hclose =>
    obtain ⟨body, rest', hclose', -⟩ := (closed_quote hc).mp hs
    rw [hclose] at hclose'
    cases hclose'
  | plain heq _ hquote =>
    rw [heq, Closed, marks_append_left hquote] at hs
    exact hs

theorem neat_of_scan {s rest : Text} {t : Token} (hs : Closed s) (h : scan s = some (t, rest)) :
    t.Neat := by
  cases scannedBy_of_scan h with
  | string hstring =>
    obtain ⟨q, s', body, hq, rfl, rfl, hclose⟩ := scanString_eq_some hstring
    obtain ⟨hclosed, hliterals⟩ := closed_string hq (closeQuote_body hclose)
    refine ⟨hclosed, ?_⟩
    rw [hliterals, List.filter_cons_of_pos (isString_cons hq body)]
    rfl
  | @number l _ hnumber =>
    have hquote : Quoteless l := (scanNumber_readsText hnumber).2.2
    refine ⟨closed_of_quoteless hquote, ?_⟩
    rw [literals_of_quoteless hquote,
      List.filter_cons_of_neg (by simp [isString_of_quoteless hquote])]
    rfl
  | path hpath => exact scanPath_isPath hpath
  | space hspace => exact (scanSpace_readsText hspace).2.2
  | operator hstring hoperator =>
    cases scanned_of_operator hstring hoperator with
    | string => simpa using scanOperator_eq_some hoperator
    | lone hc hclose =>
      obtain ⟨_, _, hclose', -⟩ := (closed_quote hc).mp hs
      rw [hclose] at hclose'
      cases hclose'
    | plain _ _ hquote =>
      rcases scanOperator_eq_some hoperator with rfl | rfl | ⟨x, rfl⟩
      · trivial
      · trivial
      · exact hquote

theorem neat_ofText {s : Text} (hs : Closed s) : ∀ t ∈ ofText s, t.Neat := by
  induction s using tokens_induction with
  | nil => exact fun _ h => absurd h List.not_mem_nil
  | cons s t rest hscan ih =>
    rw [ofText_of_scan hscan, List.forall_mem_cons]
    exact ⟨neat_of_scan hs hscan, ih (closed_of_scan hs hscan)⟩

end Token

namespace Item

/-- The words are as the condition says, and no other part has open quotes or a literal besides
itself. -/
inductive Neat (P : Text → Prop) : Item → Prop where
  | word {w} : P w → Neat P (word w)
  | literal {s} : Closed s → Query.literals s = [s].filter isString → Neat P (literal s)
  | space {s} : Quoteless s → Neat P (space s)
  | symbol {s} : Quoteless s → Neat P (symbol s)
  | call {name args} : Quoteless name → (∀ item ∈ args, Neat P item) → Neat P (call name args)
  | group {items} : (∀ item ∈ items, Neat P item) → Neat P (group items)

variable {P : Text → Prop}

theorem neat_after {items : List Item} (h : ∀ item ∈ items, Neat IsPath item) :
    (∀ name ∈ (Frame.after items).name, Quoteless name) ∧
      ∀ item ∈ (Frame.after items).before, Neat IsPath item := by
  unfold Frame.after
  split
  · next w before =>
    rw [List.forall_mem_cons] at h
    obtain ⟨hword, hbefore⟩ := h
    cases hword with
    | word hw => exact ⟨by rintro _ ⟨⟩; exact hw.quoteless, hbefore⟩
  · exact ⟨by simp, h⟩

theorem neat_close {f : Frame} {inner : List Item} (hname : ∀ name ∈ f.name, Quoteless name)
    (h : ∀ item ∈ inner, Neat P item) : Neat P (f.close inner) := by
  unfold Frame.close
  split
  · next name heq => exact .call (hname name heq) h
  · exact .group h

theorem neat_assemble {frames : List Frame} {items out : List Item} {tokens : List Token}
    (hframes : ∀ f ∈ frames, (∀ name ∈ f.name, Quoteless name) ∧
      ∀ item ∈ f.before, Neat IsPath item)
    (hitems : ∀ item ∈ items, Neat IsPath item) (htokens : ∀ t ∈ tokens, t.Neat)
    (h : assemble frames items tokens = some out) : ∀ item ∈ out, Neat IsPath item := by
  fun_induction assemble frames items tokens with
  | case1 items =>
    cases h
    exact fun item hitem => hitems item (List.mem_reverse.mp hitem)
  | case2 => cases h
  | case3 frames items rest ih =>
    rw [List.forall_mem_cons] at htokens
    exact ih (List.forall_mem_cons.mpr ⟨neat_after hitems, hframes⟩) (by simp) htokens.2 h
  | case4 => cases h
  | case5 frame frames items rest ih =>
    rw [List.forall_mem_cons] at htokens hframes
    have hinner : ∀ item ∈ items.reverse, Neat IsPath item := fun item hitem =>
      hitems item (List.mem_reverse.mp hitem)
    exact ih hframes.2 (List.forall_mem_cons.mpr ⟨neat_close hframes.1.1 hinner, hframes.1.2⟩)
      htokens.2 h
  | case6 frames items s rest ih =>
    rw [List.forall_mem_cons] at htokens
    exact ih hframes (List.forall_mem_cons.mpr ⟨.word htokens.1, hitems⟩) htokens.2 h
  | case7 frames items s rest ih =>
    rw [List.forall_mem_cons] at htokens
    exact ih hframes (List.forall_mem_cons.mpr ⟨.literal htokens.1.1 htokens.1.2, hitems⟩)
      htokens.2 h
  | case8 frames items s rest ih =>
    rw [List.forall_mem_cons] at htokens
    exact ih hframes (List.forall_mem_cons.mpr ⟨.space htokens.1, hitems⟩) htokens.2 h
  | case9 frames items s rest ih =>
    rw [List.forall_mem_cons] at htokens
    exact ih hframes (List.forall_mem_cons.mpr ⟨.symbol htokens.1, hitems⟩) htokens.2 h

theorem neat_ofText? {s : Text} (hs : Closed s) {items : List Item} (h : ofText? s = some items) :
    ∀ item ∈ items, Neat IsPath item :=
  neat_assemble (by simp) (by simp) (Token.neat_ofText hs) h

theorem qualifyAll_eq_map (var : Text) (items : List Item) :
    qualifyAll var items = items.map (qualify var) := by
  induction items with
  | nil => rw [qualifyAll, List.map_nil]
  | cons item items ih => rw [qualifyAll, ih, List.map_cons]

theorem nativeAll_eq_flatMap (items : List Item) : nativeAll items = items.flatMap native := by
  induction items with
  | nil => rw [nativeAll, List.flatMap_nil]
  | cons item items ih => rw [nativeAll, ih, List.flatMap_cons]

theorem bindModelTestAll_eq_map (graph : Text) (var : Option Text) (items : List Item) :
    bindModelTestAll graph var items = items.map (bindModelTest graph var) := by
  induction items with
  | nil => rw [bindModelTestAll, List.map_nil]
  | cons item items ih => rw [bindModelTestAll, ih, List.map_cons]

theorem bracketAll_eq_map (items : List Item) : bracketAll items = items.map bracket := by
  induction items with
  | nil => rw [bracketAll, List.map_nil]
  | cons item items ih => rw [bracketAll, ih, List.map_cons]

theorem neat_qualify {var : Text} (hvar : IsPath var) {item : Item} (h : Neat IsPath item) :
    Neat IsPath (item.qualify var) := by
  induction h with
  | word hw =>
    rw [qualify]
    split
    · exact .word hw
    · exact .word (hvar.append (List.forall_mem_cons.mpr ⟨by decide, hw⟩))
  | literal hclosed hliterals =>
    rw [qualify]
    exact .literal hclosed hliterals
  | space hs =>
    rw [qualify]
    exact .space hs
  | symbol hs =>
    rw [qualify]
    exact .symbol hs
  | call hname _ ih =>
    rw [qualify, qualifyAll_eq_map]
    exact .call hname (List.forall_mem_map.mpr ih)
  | group _ ih =>
    rw [qualify, qualifyAll_eq_map]
    exact .group (List.forall_mem_map.mpr ih)

theorem mem_of_mem_trimSpaces {item : Item} {items : List Item} (h : item ∈ trimSpaces items) :
    item ∈ items :=
  have hback := (List.dropWhile_sublist isSpace).subset (List.mem_reverse.mp h)
  (List.dropWhile_sublist isSpace).subset (List.mem_reverse.mp hback)

theorem mem_of_mem_commaPieces {item : Item} {piece items : List Item}
    (hpiece : piece ∈ commaPieces items) (h : item ∈ piece) : item ∈ items := by
  induction items generalizing piece with
  | nil =>
    rw [commaPieces, List.mem_singleton] at hpiece
    rw [hpiece] at h
    exact h
  | cons first items ih =>
    rw [commaPieces] at hpiece
    split at hpiece
    · rcases List.mem_cons.mp hpiece with rfl | hpiece
      · cases h
      · exact List.mem_cons_of_mem _ (ih hpiece h)
    · split at hpiece
      · rw [List.mem_singleton] at hpiece
        rw [hpiece, List.mem_singleton] at h
        rw [h]
        exact List.mem_cons_self
      · next next rest heq =>
        rw [heq] at ih
        rcases List.mem_cons.mp hpiece with rfl | hpiece
        · rcases List.mem_cons.mp h with rfl | h
          · exact List.mem_cons_self
          · exact List.mem_cons_of_mem _ (ih List.mem_cons_self h)
        · exact List.mem_cons_of_mem _ (ih (List.mem_cons_of_mem _ hpiece) h)

theorem mem_of_mem_arguments {item : Item} {piece args : List Item}
    (hpiece : piece ∈ arguments args)
    (h : item ∈ piece) : item ∈ args := by
  unfold arguments at hpiece
  split at hpiece
  · cases hpiece
  · obtain ⟨piece', hpiece', rfl⟩ := List.mem_map.mp hpiece
    exact mem_of_mem_commaPieces hpiece' (mem_of_mem_trimSpaces h)

theorem betweenOperator_eq_some {name operator : Text}
    (h : betweenOperator name = some operator) :
    (name.sameLetters "STARTSWITH" = true ∧ operator = "STARTS WITH") ∨
    (name.sameLetters "ENDSWITH" = true ∧ operator = "ENDS WITH") ∨
    (name.sameLetters "CONTAINS" = true ∧ operator = "CONTAINS") := by
  unfold betweenOperator at h
  split at h
  · next hname => exact Or.inl ⟨hname, (Option.some.inj h).symm⟩
  · split at h
    · next hname => exact Or.inr (Or.inl ⟨hname, (Option.some.inj h).symm⟩)
    · split at h
      · next hname => exact Or.inr (Or.inr ⟨hname, (Option.some.inj h).symm⟩)
      · cases h

theorem nullTest_eq_some {name test : Text} (h : nullTest name = some test) :
    (name.sameLetters "IS_NULL" = true ∧ test = "IS NULL") ∨
    (name.sameLetters "IS_DEFINED" = true ∧ test = "IS NOT NULL") := by
  unfold nullTest at h
  split at h
  · next hname => exact Or.inl ⟨hname, (Option.some.inj h).symm⟩
  · split at h
    · next hname => exact Or.inr ⟨hname, (Option.some.inj h).symm⟩
    · cases h

/-- What holds of the operators that calls are written as. -/
theorem forall_operator {P : Text → Prop} (hbetween : P "STARTS WITH" ∧ P "ENDS WITH" ∧ P "CONTAINS")
    (htest : P "IS NULL" ∧ P "IS NOT NULL") {name operator : Text}
    (h : betweenOperator name = some operator ∨ nullTest name = some operator) : P operator := by
  rcases h with h | h
  · rcases betweenOperator_eq_some h with ⟨-, rfl⟩ | ⟨-, rfl⟩ | ⟨-, rfl⟩
    · exact hbetween.1
    · exact hbetween.2.1
    · exact hbetween.2.2
  · rcases nullTest_eq_some h with ⟨-, rfl⟩ | ⟨-, rfl⟩
    · exact htest.1
    · exact htest.2

theorem quoteless_operator {name operator : Text}
    (h : betweenOperator name = some operator ∨ nullTest name = some operator) :
    Quoteless operator :=
  forall_operator (by decide) (by decide) h

theorem forall_nativeCall {R : Item → Prop} {name : Text} {args : List Item}
    (hcall : R (call name args)) (hargs : ∀ item ∈ args, R item)
    (hoperator : ∀ operator, betweenOperator name = some operator →
      R (symbol (' ' :: operator ++ [' '])))
    (htest : ∀ test, nullTest name = some test → R (symbol (' ' :: test))) :
    ∀ item ∈ nativeCall name args, R item := by
  have hkept : ∀ item ∈ [call name args], R item := List.forall_mem_singleton.mpr hcall
  unfold nativeCall
  split
  · next operator hname =>
    split
    · next left right hpieces =>
      rw [List.forall_mem_append, List.forall_mem_cons]
      refine ⟨fun item hitem => hargs item ?_, hoperator operator hname,
        fun item hitem => hargs item ?_⟩
      · exact mem_of_mem_arguments (hpieces ▸ List.mem_cons_self) hitem
      · exact mem_of_mem_arguments (hpieces ▸ List.mem_cons_of_mem _ List.mem_cons_self) hitem
    · exact hkept
  · split
    · next test hname =>
      split
      · exact hkept
      · rw [List.forall_mem_append, List.forall_mem_singleton]
        exact ⟨fun item hitem => hargs item (mem_of_mem_trimSpaces hitem), htest test hname⟩
    · exact hkept

theorem neat_nativeCall {name : Text} {args : List Item} (hname : Quoteless name)
    (hargs : ∀ item ∈ args, Neat P item) : ∀ item ∈ nativeCall name args, Neat P item := by
  refine forall_nativeCall (.call hname hargs) hargs (fun operator hoperator => .symbol ?_)
    fun test htest => .symbol ?_
  · have hwords : Quoteless (' ' :: operator) :=
      List.forall_mem_cons.mpr ⟨by decide, quoteless_operator (Or.inl hoperator)⟩
    exact hwords.append (by decide)
  · exact List.forall_mem_cons.mpr ⟨by decide, quoteless_operator (Or.inr htest)⟩

theorem neat_native {item : Item} (h : Neat P item) : ∀ part ∈ item.native, Neat P part := by
  induction h with
  | word hw =>
    rw [native, List.forall_mem_singleton]
    exact .word hw
  | literal hclosed hliterals =>
    rw [native, List.forall_mem_singleton]
    exact .literal hclosed hliterals
  | space hs =>
    rw [native, List.forall_mem_singleton]
    exact .space hs
  | symbol hs =>
    rw [native, List.forall_mem_singleton]
    exact .symbol hs
  | call hname _ ih =>
    rw [native, nativeAll_eq_flatMap]
    refine neat_nativeCall hname fun part hpart => ?_
    obtain ⟨item, hitem, hpart⟩ := List.mem_flatMap.mp hpart
    exact ih item hitem part hpart
  | group _ ih =>
    rw [native, List.forall_mem_singleton, nativeAll_eq_flatMap]
    refine .group fun part hpart => ?_
    obtain ⟨item, hitem, hpart⟩ := List.mem_flatMap.mp hpart
    exact ih item hitem part hpart

theorem neat_bindModelTest {graph : Text} (hgraph : Quoteless graph) {var : Option Text}
    (hvar : ∀ v ∈ var, P v) {item : Item} (h : Neat P item) :
    Neat P (item.bindModelTest graph var) := by
  induction h with
  | word hw =>
    rw [bindModelTest]
    exact .word hw
  | literal hclosed hliterals =>
    rw [bindModelTest]
    exact .literal hclosed hliterals
  | space hs =>
    rw [bindModelTest]
    exact .space hs
  | symbol hs =>
    rw [bindModelTest]
    exact .symbol hs
  | @call name args hname _ ih =>
    have hargs : ∀ item ∈ bindModelTestAll graph var args, Neat P item := by
      rw [bindModelTestAll_eq_map]
      exact List.forall_mem_map.mpr ih
    unfold bindModelTest
    dsimp only
    split
    · have hmodel : Quoteless (Text.joined [graph, ".is_of_model"]) := by
        have htest : Quoteless ".is_of_model".toList := by decide
        simpa [Text.joined] using hgraph.append htest
      refine .call hmodel ?_
      cases var with
      | none => exact hargs
      | some v =>
        rw [List.forall_mem_append, List.forall_mem_cons, List.forall_mem_singleton]
        exact ⟨⟨.word (hvar v rfl), .symbol (by decide)⟩, hargs⟩
    · exact .call hname hargs
  | group _ ih =>
    rw [bindModelTest, bindModelTestAll_eq_map]
    exact .group (List.forall_mem_map.mpr ih)

end Item

namespace Query

/-- The quotes are closed, and the blanks of the literals are single spaces. -/
structure Regular (s : Text) : Prop where
  closed : Closed s
  respaced : ∀ l ∈ literals s, l.respaced = l

theorem regular_of_quoteless {s : Text} (h : Quoteless s) : Regular s :=
  ⟨closed_of_quoteless h, by simp [Token.literals_of_quoteless h]⟩

theorem Regular.append {s t : Text} (hs : Regular s) (ht : Regular t) : Regular (s ++ t) := by
  refine ⟨hs.closed.append ht.closed, ?_⟩
  rw [literals_append hs.closed, List.forall_mem_append]
  exact ⟨hs.respaced, ht.respaced⟩

theorem closeQuote_inner {q : Char} (hq : q ≠ '\\') {s : Text} (hs : ∀ c ∈ s, c ≠ '\\' ∧ c ≠ q) :
    Token.closeQuote q (s ++ [q]) = some (s ++ [q], []) := by
  induction s with
  | nil => exact closeQuote_close hq []
  | cons c s ih =>
    rw [List.forall_mem_cons] at hs
    rw [List.cons_append, closeQuote_other hs.1.1 hs.1.2, ih hs.2]
    rfl

theorem closeQuote_path {s : Text} (h : IsPath s) :
    Token.closeQuote '\'' (s ++ ['\'']) = some (s ++ ['\''], []) := by
  refine closeQuote_inner (by decide) fun c hc => ?_
  have hplain := not_quote_of_isPathChar (h c hc)
  exact ⟨hplain.2.1, ne_of_isQuote (by decide) hplain.1⟩

/-- What holds of paths, of paths between quotes and of both brackets holds of a path as it is
written: a step in brackets is a literal between them. -/
theorem bracketPath_induction {Q : Text → Prop} (append : ∀ {s t}, Q s → Q t → Q (s ++ t))
    (path : ∀ {s}, IsPath s → Q s) (key : ∀ {s}, IsPath s → Q ('\'' :: (s ++ ['\''])))
    (left : Q ['[']) (right : Q [']']) {s : Text} (h : IsPath s) : Q (Item.bracketPath s) := by
  have hempty : IsPath [] := fun c hc => absurd hc List.not_mem_nil
  have hstep : ∀ step, IsPath step → Q (Item.pathStep step) := by
    intro step hstep
    unfold Item.pathStep
    split
    · next name =>
      have htext : Text.joined ["['$", name, "']"] =
          ['['] ++ '\'' :: ('$' :: name ++ ['\'']) ++ [']'] := by
        simp [Text.joined]
      rw [htext]
      exact append (append left (key hstep)) right
    · exact path (List.forall_mem_cons.mpr ⟨by decide, hstep⟩)
  have hsteps : ∀ steps : List Text, (∀ step ∈ steps, IsPath step) →
      Q (steps.map Item.pathStep).flatten := by
    intro steps hall
    induction steps with
    | nil => exact path hempty
    | cons step steps ih =>
      rw [List.forall_mem_cons] at hall
      rw [List.map_cons, List.flatten_cons]
      exact append (hstep step hall.1) (ih hall.2)
  have hpieces : ∀ piece ∈ s.pieces (· == '.'), IsPath piece := fun piece hpiece c hc =>
    h c (mem_of_mem_pieces hpiece hc)
  unfold Item.bracketPath
  split
  · exact path hempty
  · next first steps heq =>
    rw [heq, List.forall_mem_cons] at hpieces
    exact append (path hpieces.1) (hsteps steps hpieces.2)

theorem regular_bracketPath {path : Text} (h : IsPath path) : Regular (Item.bracketPath path) := by
  refine bracketPath_induction Regular.append (fun hs => regular_of_quoteless hs.quoteless) ?_
    (regular_of_quoteless (by decide)) (regular_of_quoteless (by decide)) h
  intro s hs
  obtain ⟨hclosed, hliterals⟩ := Token.closed_string (by decide) (closeQuote_path hs)
  refine ⟨hclosed, ?_⟩
  rw [hliterals, List.forall_mem_singleton]
  refine Text.respaced_of_blankless ?_
  rw [List.forall_mem_cons, List.forall_mem_append, List.forall_mem_singleton]
  exact ⟨by decide, fun c hc => (not_quote_of_isPathChar (hs c hc)).2.2, by decide⟩

end Query

namespace Item

theorem neat_bracket {item : Item} (h : Neat IsPath item) : Neat Regular item.bracket := by
  induction h with
  | word hw =>
    rw [bracket]
    exact .word (regular_bracketPath hw)
  | literal hclosed hliterals =>
    rw [bracket]
    exact .literal hclosed hliterals
  | space hs =>
    rw [bracket]
    exact .space hs
  | symbol hs =>
    rw [bracket]
    exact .symbol hs
  | call hname _ ih =>
    rw [bracket, bracketAll_eq_map]
    exact .call hname (List.forall_mem_map.mpr ih)
  | group _ ih =>
    rw [bracket, bracketAll_eq_map]
    exact .group (List.forall_mem_map.mpr ih)

/-- The literals of the text are the strings among the given ones, in order, and regular ones
besides. -/
structure Writes (parts : List Text) (s : Text) : Prop where
  closed : Closed s
  sublist : (parts.filter isString).Sublist (Query.literals s)
  regular : ∀ l ∈ Query.literals s, l ∈ parts ∨ l.respaced = l

theorem writes_regular {s : Text} (h : Regular s) : Writes [] s :=
  ⟨h.closed, List.nil_sublist _, fun l hl => Or.inr (h.respaced l hl)⟩

theorem Writes.append {parts parts' : List Text} {s t : Text} (hs : Writes parts s)
    (ht : Writes parts' t) : Writes (parts ++ parts') (s ++ t) := by
  have hliterals := literals_append hs.closed t
  refine ⟨hs.closed.append ht.closed, ?_, ?_⟩
  · rw [hliterals, List.filter_append]
    exact hs.sublist.append ht.sublist
  · rw [hliterals, List.forall_mem_append]
    exact ⟨fun l hl => (hs.regular l hl).imp_left (List.mem_append_left _),
      fun l hl => (ht.regular l hl).imp_left (List.mem_append_right _)⟩

theorem writes_renderAll {items : List Item}
    (h : ∀ item ∈ items, Writes item.literals item.render) :
    Writes (literalsAll items) (renderAll items) := by
  induction items with
  | nil => exact writes_regular (regular_of_quoteless (by decide))
  | cons item items ih =>
    rw [List.forall_mem_cons] at h
    rw [literalsAll, renderAll]
    exact h.1.append (ih h.2)

theorem writes_render {item : Item} (h : Neat Regular item) :
    Writes item.literals item.render := by
  induction h with
  | word hw =>
    rw [literals, render]
    exact writes_regular hw
  | @literal s hclosed hliterals =>
    rw [literals, render]
    refine ⟨hclosed, ?_, fun l hl => ?_⟩
    · rewrite [hliterals]
      exact .refl _
    · rw [hliterals] at hl
      exact Or.inl (List.mem_filter.mp hl).1
  | space hs | symbol hs =>
    rw [literals, render]
    exact writes_regular (regular_of_quoteless hs)
  | @call name args hname _ ih =>
    have hopen : Writes [] (name ++ ['(']) :=
      writes_regular (regular_of_quoteless (hname.append (by decide)))
    have hclose : Writes [] [')'] := writes_regular (regular_of_quoteless (by decide))
    have hall := (hopen.append (writes_renderAll ih)).append hclose
    rw [literals, render]
    simpa using hall
  | @group items _ ih =>
    have hopen : Writes [] ['('] := writes_regular (regular_of_quoteless (by decide))
    have hclose : Writes [] [')'] := writes_regular (regular_of_quoteless (by decide))
    have hall := (hopen.append (writes_renderAll ih)).append hclose
    rw [literals, render]
    simpa using hall

end Item
end TwinGraph
