import TwinGraph.Query.Cypher
import TwinGraph.Proofs.Query.Flattening

/-! Property accesses in a condition: a name, and steps behind points and in brackets. The items of
a condition are grouped into accesses and everything else, and for a single access it is told when
it is written as one. -/
namespace TwinGraph

open Query Item

inductive Step where
  | dotted (name : Text)
  | bracketed (key : Text)
  deriving DecidableEq, Repr

structure Access where
  head : Text
  steps : List Step
  deriving DecidableEq, Repr

namespace Access

/-- The items of the steps behind the word that is not finished yet, or behind a bracket. -/
def itemsFrom : Option Text → List Step → List Item
  | none, [] => []
  | some w, [] => [word w]
  | none, .dotted s :: steps => symbol ['.'] :: itemsFrom (some s) steps
  | some w, .dotted s :: steps => itemsFrom (some (w ++ '.' :: s)) steps
  | none, .bracketed key :: steps =>
    symbol ['['] :: literal key :: symbol [']'] :: itemsFrom none steps
  | some w, .bracketed key :: steps =>
    word w :: symbol ['['] :: literal key :: symbol [']'] :: itemsFrom none steps

def items (a : Access) : List Item := itemsFrom (some a.head) a.steps

end Access

def Item.inScope (var : Option Text) (item : Item) : Item :=
  bracket (match var with
    | some var => item.qualify var
    | none => item)

def leadText (var : Option Text) (name : Text) : Text :=
  match var with
  | some var => var ++ pathStep name
  | none => name

def Step.written : Step → Text
  | dotted name => pathStep name
  | bracketed key => '[' :: key ++ [']']

namespace Access

def emitted (var : Option Text) (a : Access) : List Item := a.items.map (Item.inScope var)

def written (var : Option Text) (a : Access) : Text :=
  leadText var a.head ++ (a.steps.map Step.written).flatten

/-- Directly behind a bracket stands no point, or without an alias none with a dollar sign. -/
def Plain (var : Option Text) : Bool → List Step → Prop
  | _, [] => True
  | behind, .dotted name :: steps =>
    (behind = true → var = none ∧ name.head? ≠ some '$') ∧ Plain var false steps
  | _, .bracketed _ :: steps => Plain var true steps

def Whole (var : Option Text) (a : Access) : Prop := Plain var false a.steps

structure Named (a : Access) : Prop where
  head : IsSegment a.head
  dotted : ∀ name, Step.dotted name ∈ a.steps → IsSegment name
  names : ∀ w, word w ∈ a.items → operatorWords.any (Text.sameLetters w) = false

structure Legal (a : Access) : Prop extends Named a where
  bracketed : ∀ key, Step.bracketed key ∈ a.steps → isString key = true

end Access

theorem pathStep_plain {s : Text} (hs : s.head? ≠ some '$') : pathStep s = '.' :: s := by
  unfold pathStep
  split
  · exact absurd rfl hs
  · rfl

theorem bracketPath_plain {s : Text} (hs : ∀ c ∈ s, (c == '.') = false) : bracketPath s = s := by
  rw [bracketPath, pieces_plain hs]
  simp

theorem bracketPath_step (w : Text) {s : Text} (hs : ∀ c ∈ s, (c == '.') = false) :
    bracketPath (w ++ '.' :: s) = bracketPath w ++ pathStep s := by
  obtain ⟨first, steps, hw⟩ := List.exists_cons_of_ne_nil (Text.pieces_ne_nil (· == '.') w)
  have hpieces : Text.pieces (· == '.') (w ++ '.' :: s) = first :: (steps ++ [s]) := by
    rw [pieces_append (by decide), pieces_plain hs, hw, List.cons_append]
  rw [bracketPath, bracketPath, hpieces, hw]
  simp

def wordText (var : Option Text) (w : Text) : Text :=
  match var with
  | some var => bracketPath (var ++ '.' :: w)
  | none => bracketPath w

def emittedSteps (var : Option Text) : Bool → List Step → Text
  | _, [] => []
  | behind, .dotted name :: steps =>
    (if behind then '.' :: leadText var name else pathStep name) ++ emittedSteps var false steps
  | _, .bracketed key :: steps => Step.written (.bracketed key) ++ emittedSteps var true steps

theorem inScope_word {w : Text} (hw : operatorWords.any (Text.sameLetters w) = false)
    (var : Option Text) : (word w).inScope var = word (wordText var w) := by
  cases var with
  | none => rw [Item.inScope, bracket, wordText]
  | some v => simp [Item.inScope, qualify, hw, bracket, wordText]

theorem wordText_step (var : Option Text) (w : Text) {s : Text} (hs : ∀ c ∈ s, (c == '.') = false) :
    wordText var (w ++ '.' :: s) = wordText var w ++ pathStep s := by
  cases var with
  | none => exact bracketPath_step w hs
  | some v =>
    rw [wordText, ← List.cons_append, ← List.append_assoc]
    exact bracketPath_step _ hs

theorem wordText_name {var : Option Text} (hvar : ∀ v ∈ var, isIdentifier v = true) {s : Text}
    (hs : IsSegment s) : wordText var s = leadText var s := by
  cases var with
  | none => exact bracketPath_plain hs.not_point
  | some v =>
    have hv : IsSegment v := ⟨[], v, rfl, by simp, hvar v rfl⟩
    rw [wordText, leadText, bracketPath_step v hs.not_point, bracketPath_plain hv.not_point]

theorem inScope_symbol (var : Option Text) (s : Text) : (symbol s).inScope var = symbol s := by
  cases var <;> simp [Item.inScope, qualify, bracket]

theorem inScope_literal (var : Option Text) (s : Text) : (literal s).inScope var = literal s := by
  cases var <;> simp [Item.inScope, qualify, bracket]

section Emitting

variable {var : Option Text} (hvar : ∀ v ∈ var, isIdentifier v = true)

include hvar

theorem renderAll_itemsFrom {steps : List Step}
    (hsteps : ∀ name, Step.dotted name ∈ steps → IsSegment name) (w : Option Text)
    (hnames : ∀ w', word w' ∈ Access.itemsFrom w steps →
      operatorWords.any (Text.sameLetters w') = false) :
    renderAll ((Access.itemsFrom w steps).map (Item.inScope var)) =
      (w.map (wordText var)).getD [] ++ emittedSteps var w.isNone steps := by
  fun_induction Access.itemsFrom w steps with
  | case1 => rfl
  | case2 w =>
    rw [List.map_singleton, inScope_word (hnames w (by simp))]
    simp [renderAll, Item.render, emittedSteps]
  | case3 s steps ih =>
    have hname := hsteps s List.mem_cons_self
    have hmore := ih (fun name hname => hsteps name (List.mem_cons_of_mem _ hname))
      (fun w' hw' => hnames w' (List.mem_cons_of_mem _ hw'))
    rw [List.map_cons, renderAll, hmore, inScope_symbol]
    simp [Item.render, emittedSteps, wordText_name hvar hname]
  | case4 w s steps ih =>
    have hname := hsteps s List.mem_cons_self
    rw [ih (fun name hname => hsteps name (List.mem_cons_of_mem _ hname)) hnames]
    simp [emittedSteps, wordText_step var w hname.not_point]
  | case5 key steps ih =>
    have hmore := ih (fun name hname => hsteps name (List.mem_cons_of_mem _ hname))
      (fun w' hw' => hnames w' (by simp [hw']))
    simp only [List.map_cons, renderAll, hmore, inScope_symbol, inScope_literal]
    simp [Item.render, emittedSteps, Step.written]
  | case6 w key steps ih =>
    have hmore := ih (fun name hname => hsteps name (List.mem_cons_of_mem _ hname))
      (fun w' hw' => hnames w' (by simp [hw']))
    simp only [List.map_cons, renderAll, hmore, inScope_symbol, inScope_literal,
      inScope_word (hnames w (by simp))]
    simp [Item.render, emittedSteps, Step.written]

theorem renderAll_emitted {a : Access} (ha : a.Named) :
    renderAll (a.emitted var) = leadText var a.head ++ emittedSteps var false a.steps := by
  rw [Access.emitted, Access.items, renderAll_itemsFrom hvar ha.dotted _ ha.names]
  simp [wordText_name hvar ha.head]

end Emitting

theorem emittedSteps_of_plain {var : Option Text} {steps : List Step} {behind : Bool}
    (h : Access.Plain var behind steps) :
    emittedSteps var behind steps = (steps.map Step.written).flatten := by
  induction steps generalizing behind with
  | nil => rfl
  | cons step steps ih =>
    cases step with
    | dotted name =>
      rw [emittedSteps, ih h.2, List.map_cons, List.flatten_cons, Step.written]
      split
      · next hbehind =>
        obtain ⟨rfl, hname⟩ := h.1 hbehind
        rw [leadText, pathStep_plain hname]
      · rfl
    | bracketed key => rw [emittedSteps, ih h, List.map_cons, List.flatten_cons]

/-- With an alias, each point behind a bracket makes the text longer. -/
theorem length_emittedSteps_some (v : Text) (steps : List Step) (behind : Bool) :
    (steps.map Step.written).flatten.length ≤ (emittedSteps (some v) behind steps).length ∧
    (¬Access.Plain (some v) behind steps →
      (steps.map Step.written).flatten.length < (emittedSteps (some v) behind steps).length) := by
  induction steps generalizing behind with
  | nil => exact ⟨Nat.le_refl _, fun h => absurd trivial h⟩
  | cons step steps ih =>
    rw [List.map_cons, List.flatten_cons, List.length_append]
    cases step with
    | dotted name =>
      obtain ⟨hle, hlt⟩ := ih false
      cases behind with
      | false =>
        simp only [emittedSteps, Step.written, Access.Plain, List.length_append]
        refine ⟨by simpa using hle, fun h => ?_⟩
        have := hlt fun hplain => h ⟨by simp, hplain⟩
        simpa using this
      | true =>
        have hlead : (leadText (some v) name).length = v.length + (pathStep name).length :=
          List.length_append
        simp only [emittedSteps, Step.written, if_true, List.length_append, List.length_cons, hlead]
        omega
    | bracketed key =>
      obtain ⟨hle, hlt⟩ := ih true
      rw [emittedSteps, List.length_append]
      exact ⟨by omega, fun h => by have := hlt h; omega⟩

/-- Without an alias, each point left in front of a dollar sign makes the text shorter. -/
theorem length_emittedSteps_none (steps : List Step) (behind : Bool) :
    (emittedSteps none behind steps).length ≤ (steps.map Step.written).flatten.length ∧
    (¬Access.Plain none behind steps →
      (emittedSteps none behind steps).length < (steps.map Step.written).flatten.length) := by
  induction steps generalizing behind with
  | nil => exact ⟨Nat.le_refl _, fun h => absurd trivial h⟩
  | cons step steps ih =>
    rw [List.map_cons, List.flatten_cons, List.length_append]
    cases step with
    | dotted name =>
      obtain ⟨hle, hlt⟩ := ih false
      cases behind with
      | false =>
        simp only [emittedSteps, Step.written, Access.Plain, List.length_append]
        refine ⟨by simpa using hle, fun h => ?_⟩
        have := hlt fun hplain => h ⟨by simp, hplain⟩
        simpa using this
      | true =>
        simp only [emittedSteps, Step.written, if_true, leadText, List.length_append,
          List.length_cons]
        by_cases hname : name.head? = some '$'
        · obtain ⟨s, rfl⟩ : ∃ s, name = '$' :: s := by
            cases name with
            | nil => cases hname
            | cons c s =>
              cases hname
              exact ⟨s, rfl⟩
          have hstep : (pathStep ('$' :: s)).length = s.length + 5 := by
            simp [pathStep, Text.joined]
          rw [hstep, List.length_cons]
          omega
        · rw [pathStep_plain hname, List.length_cons]
          refine ⟨by omega, fun h => ?_⟩
          have := hlt fun hplain => h ⟨fun _ => ⟨rfl, hname⟩, hplain⟩
          omega
    | bracketed key =>
      obtain ⟨hle, hlt⟩ := ih true
      rw [emittedSteps, List.length_append]
      exact ⟨by omega, fun h => by have := hlt h; omega⟩

/-- The access comes out as one exactly if it is whole. -/
theorem emitted_eq_written_iff {var : Option Text} (hvar : ∀ v ∈ var, isIdentifier v = true)
    {a : Access} (ha : a.Named) :
    renderAll (a.emitted var) = a.written var ↔ a.Whole var := by
  rw [renderAll_emitted hvar ha, Access.written, List.append_cancel_left_eq, Access.Whole]
  refine ⟨fun heq => Classical.byContradiction fun hplain => ?_, emittedSteps_of_plain⟩
  have hlength := congrArg List.length heq
  cases var with
  | none =>
    have := (length_emittedSteps_none a.steps false).2 hplain
    omega
  | some v =>
    have := (length_emittedSteps_some v a.steps false).2 hplain
    omega

/-! ### Points in front of dollar signs -/

def hasDollarStep (s : Text) : Bool := Text.contains ['.', '$'] s

theorem hasDollarStep_cons (c : Char) (s : Text) :
    hasDollarStep (c :: s) = ((c == '.' && s.head? == some '$') || hasDollarStep s) := by
  rw [hasDollarStep, Text.contains, hasDollarStep]
  cases s with
  | nil => simp [List.isPrefixOf]
  | cons d s =>
    have hdot : ('.' == c) = (c == '.') := BEq.comm
    have hdollar : ('$' == d) = (d == '$') := BEq.comm
    simp [List.isPrefixOf, hdot, hdollar]

theorem hasDollarStep_append {s : Text} (hs : s.getLast? ≠ some '.') (t : Text) :
    hasDollarStep (s ++ t) = (hasDollarStep s || hasDollarStep t) := by
  induction s with
  | nil => rfl
  | cons c s ih =>
    rw [List.cons_append, hasDollarStep_cons, hasDollarStep_cons]
    cases s with
    | nil =>
      have hc : (c == '.') = false := by simpa using hs
      rw [hc]
      rfl
    | cons d s =>
      rw [List.getLast?_cons_cons] at hs
      rw [ih hs, Bool.or_assoc]
      rfl

theorem hasDollarStep_plain {s : Text} (hs : ∀ c ∈ s, (c == '.') = false) :
    hasDollarStep s = false := by
  induction s with
  | nil => rfl
  | cons c s ih =>
    rw [List.forall_mem_cons] at hs
    rw [hasDollarStep_cons, hs.1, ih hs.2]
    rfl

theorem getLast?_ne_point {s : Text} (hs : ∀ c ∈ s, (c == '.') = false) :
    s.getLast? ≠ some '.' := fun hlast => by
  have hpoint := hs '.' (List.mem_of_getLast? hlast)
  cases hpoint

/-- Neither a point at the end nor one in front of a dollar sign. -/
structure Settled (s : Text) : Prop where
  clear : hasDollarStep s = false
  last : s.getLast? ≠ some '.'

theorem settled_plain {s : Text} (hs : ∀ c ∈ s, (c == '.') = false) : Settled s :=
  ⟨hasDollarStep_plain hs, getLast?_ne_point hs⟩

theorem IsSegment.ne_nil {s : Text} (hs : IsSegment s) : s ≠ [] := by
  obtain ⟨dollars, name, rfl, -, hname⟩ := hs
  obtain ⟨c, cs, rfl, -⟩ := isIdentifier_eq_true.mp hname
  simp

theorem Settled.append {s t : Text} (hs : Settled s) (ht : Settled t) : Settled (s ++ t) := by
  refine ⟨?_, ?_⟩
  · rw [hasDollarStep_append hs.last, hs.clear, ht.clear]
    rfl
  · rw [List.getLast?_append]
    cases hlast : t.getLast? with
    | none => exact hs.last
    | some c =>
      rw [Option.some_or, ← hlast]
      exact ht.last

theorem hasDollarStep_point {s : Text} (hs : IsSegment s) :
    hasDollarStep ('.' :: s) = (s.head? == some '$') := by
  rw [hasDollarStep_cons, hasDollarStep_plain hs.not_point, Bool.or_false]
  rfl

theorem getLast?_point {s : Text} (hs : IsSegment s) : ('.' :: s).getLast? ≠ some '.' := by
  obtain ⟨c, cs, rfl⟩ := List.exists_cons_of_ne_nil hs.ne_nil
  rw [List.getLast?_cons_cons]
  exact getLast?_ne_point hs.not_point

theorem settled_pathStep {s : Text} (hs : IsSegment s) : Settled (pathStep s) := by
  have hplain := hs.not_point
  rw [pathStep.eq_def]
  split
  · next name =>
    rw [List.forall_mem_cons] at hplain
    refine settled_plain ?_
    simp only [Text.joined, List.flatten_cons, List.flatten_nil, List.forall_mem_append]
    exact ⟨by decide, hplain.2, by decide, by simp⟩
  · next hname =>
    refine ⟨?_, getLast?_point hs⟩
    rw [hasDollarStep_point hs, beq_eq_false_iff_ne]
    intro hhead
    cases s with
    | nil => cases hhead
    | cons c name =>
      cases hhead
      exact hname name rfl

theorem settled_leadText {var : Option Text} (hvar : ∀ v ∈ var, isIdentifier v = true) {s : Text}
    (hs : IsSegment s) : Settled (leadText var s) := by
  cases var with
  | none => exact settled_plain hs.not_point
  | some v =>
    have hv : IsSegment v := ⟨[], v, rfl, by simp, hvar v rfl⟩
    exact (settled_plain hv.not_point).append (settled_pathStep hs)

def Step.bare : Step → Step
  | dotted name => dotted name
  | bracketed _ => bracketed []

def Access.bare (a : Access) : Access := ⟨a.head, a.steps.map Step.bare⟩

theorem dotted_mem_bare {steps : List Step} {name : Text} :
    Step.dotted name ∈ steps.map Step.bare ↔ Step.dotted name ∈ steps := by
  rw [List.mem_map]
  constructor
  · rintro ⟨_ | _, hstep, heq⟩
    · cases heq
      exact hstep
    · cases heq
  · exact fun h => ⟨_, h, rfl⟩

theorem word_mem_bare {steps : List Step} {w : Option Text} {w' : Text} :
    word w' ∈ Access.itemsFrom w (steps.map Step.bare) ↔ word w' ∈ Access.itemsFrom w steps := by
  fun_induction Access.itemsFrom w steps <;> simp_all [Access.itemsFrom, Step.bare]

theorem Access.Named.bare {a : Access} (ha : a.Named) : a.bare.Named :=
  ⟨ha.head, fun name hname => ha.dotted name (dotted_mem_bare.mp hname),
    fun w hw => ha.names w (word_mem_bare.mp hw)⟩

/-- Behind a bracket an alias keeps the point off the dollar sign. -/
theorem hasDollarStep_lead {var : Option Text} (hvar : ∀ v ∈ var, isIdentifier v = true)
    {name : Text} (hname : IsSegment name) :
    hasDollarStep ('.' :: leadText var name) = (var.isNone && name.head? == some '$') ∧
      ('.' :: leadText var name).getLast? ≠ some '.' := by
  cases var with
  | none => exact ⟨hasDollarStep_point hname, getLast?_point hname⟩
  | some v =>
    obtain ⟨c, cs, rfl, hc, -⟩ := isIdentifier_eq_true.mp (hvar v rfl)
    have hsettled := settled_leadText hvar hname
    have hdollar : c ≠ '$' := by
      rintro rfl
      cases hc
    have htext : leadText (some (c :: cs)) name = c :: (cs ++ pathStep name) := rfl
    rw [hasDollarStep_cons, hsettled.clear, htext, List.getLast?_cons_cons, ← htext]
    refine ⟨?_, hsettled.last⟩
    simp [htext, hdollar]

theorem hasDollarStep_emittedSteps {var : Option Text} (hvar : ∀ v ∈ var, isIdentifier v = true)
    {steps : List Step} (hsteps : ∀ name, Step.dotted name ∈ steps → IsSegment name)
    (behind : Bool) : hasDollarStep (emittedSteps var behind (steps.map Step.bare)) = true ↔
      var = none ∧ ¬Access.Plain var behind steps := by
  induction steps generalizing behind with
  | nil => simp [emittedSteps, hasDollarStep, Text.contains, Access.Plain]
  | cons step steps ih =>
    have hmore := ih fun name hname => hsteps name (List.mem_cons_of_mem _ hname)
    rw [List.map_cons]
    cases step with
    | dotted name =>
      have hname := hsteps name List.mem_cons_self
      rw [Step.bare, emittedSteps]
      cases behind with
      | false =>
        have hstep := settled_pathStep hname
        rw [if_neg Bool.false_ne_true, hasDollarStep_append hstep.last, hstep.clear,
          Bool.false_or, hmore]
        simp [Access.Plain]
      | true =>
        obtain ⟨hlead, hlast⟩ := hasDollarStep_lead hvar hname
        rw [if_pos rfl, hasDollarStep_append hlast, hlead, Bool.or_eq_true, hmore]
        cases var with
        | none => simp [Access.Plain, Decidable.or_iff_not_imp_left]
        | some v => simp
    | bracketed key =>
      have hstep : Settled (Step.written (.bracketed [])) := settled_plain (by decide)
      rw [Step.bare, emittedSteps, hasDollarStep_append hstep.last, hstep.clear, Bool.false_or,
        hmore]
      rfl

/-- A point stays in front of a dollar sign exactly if there is no alias and the access is not
whole. -/
theorem hasDollarStep_iff {var : Option Text} (hvar : ∀ v ∈ var, isIdentifier v = true)
    {a : Access} (ha : a.Named) :
    hasDollarStep (renderAll (a.bare.emitted var)) = true ↔ var = none ∧ ¬a.Whole var := by
  have hlead := settled_leadText hvar ha.head
  rw [renderAll_emitted hvar ha.bare, Access.bare, hasDollarStep_append hlead.last, hlead.clear,
    Bool.false_or, hasDollarStep_emittedSteps hvar ha.dotted]
  rfl

/-! ### Grouping -/

/-- An access, an operator word, or anything else; inside calls and groups as well. -/
inductive Phrase where
  | access (a : Access)
  | keyword (w : Text)
  | literal (s : Text)
  | space (s : Text)
  | symbol (s : Text)
  | call (name : Text) (args : List Phrase)
  | group (items : List Phrase)

namespace Phrase

mutual

def items : Phrase → List Item
  | access a => a.items
  | keyword w => [.word w]
  | literal s => [.literal s]
  | space s => [.space s]
  | symbol s => [.symbol s]
  | call name args => [.call name (itemsAll args)]
  | group ps => [.group (itemsAll ps)]

def itemsAll : List Phrase → List Item
  | [] => []
  | p :: ps => p.items ++ itemsAll ps

end

/-- The steps that begin with a bracket here, and what stands behind them. -/
def stepsBehind : List Phrase → List Step × List Phrase
  | .symbol ['['] :: .literal key :: .symbol [']'] :: rest =>
    if isString key then
      match rest with
      | .symbol ['.'] :: .access a :: rest => (.bracketed key :: .dotted a.head :: a.steps, rest)
      | rest => (.bracketed key :: (stepsBehind rest).1, (stepsBehind rest).2)
    else ([], .symbol ['['] :: .literal key :: .symbol [']'] :: rest)
  | ps => ([], ps)

def behindWord (w : Text) (ps : List Phrase) : List Phrase :=
  match w.pieces (· == '.') with
  | [] => ps
  | head :: names =>
    .access ⟨head, names.map Step.dotted ++ (stepsBehind ps).1⟩ :: (stepsBehind ps).2

end Phrase

mutual

/-- The item in front of phrases that are grouped already. -/
def Item.phraseBefore : Item → List Phrase → List Phrase
  | .word w, ps =>
    if operatorWords.any (Text.sameLetters w) then .keyword w :: ps else Phrase.behindWord w ps
  | .literal s, ps => .literal s :: ps
  | .space s, ps => .space s :: ps
  | .symbol s, ps => .symbol s :: ps
  | .call name args, ps => .call name (Item.phrases args) :: ps
  | .group items, ps => .group (Item.phrases items) :: ps

def Item.phrases : List Item → List Phrase
  | [] => []
  | item :: items => item.phraseBefore (Item.phrases items)

end

namespace Phrase

theorem itemsFrom_stepsBehind (w : Text) (ps : List Phrase) :
    Access.itemsFrom (some w) (stepsBehind ps).1 =
      .word w :: Access.itemsFrom none (stepsBehind ps).1 := by
  fun_cases stepsBehind ps <;> simp_all [Access.itemsFrom]

theorem items_stepsBehind (ps : List Phrase) :
    Access.itemsFrom none (stepsBehind ps).1 ++ itemsAll (stepsBehind ps).2 = itemsAll ps := by
  fun_induction stepsBehind ps <;> simp_all [Access.itemsFrom, itemsAll, items, Access.items]

theorem itemsFrom_dotted (w : Text) (names : List Text) (steps : List Step) :
    Access.itemsFrom (some w) (names.map Step.dotted ++ steps) =
      Access.itemsFrom (some (['.'].intercalate (w :: names))) steps := by
  induction names generalizing w with
  | nil => simp
  | cons name names ih =>
    rw [List.map_cons, List.cons_append, Access.itemsFrom, ih]
    cases names <;> simp [List.intercalate]

theorem items_behindWord (w : Text) (ps : List Phrase) :
    itemsAll (behindWord w ps) = .word w :: itemsAll ps := by
  obtain ⟨head, names, hw⟩ := List.exists_cons_of_ne_nil (Text.pieces_ne_nil (· == '.') w)
  have hwhole := intercalate_pieces '.' w
  rw [hw] at hwhole
  rw [behindWord, hw]
  dsimp only
  rw [itemsAll, items, Access.items, itemsFrom_dotted, hwhole, itemsFrom_stepsBehind,
    List.cons_append, items_stepsBehind]

end Phrase

end TwinGraph
