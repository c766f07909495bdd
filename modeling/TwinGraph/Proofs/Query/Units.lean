import TwinGraph.Proofs.Query.Arguments
import TwinGraph.Proofs.Query.Accesses

/-! Accesses as units: the conditions come out as if each access were a single word. -/
namespace TwinGraph

open Query

namespace Item

/-! ### One word in the place of several items -/

def isLeaf : Item → Bool
  | call _ _ | group _ => false
  | _ => true

/-- The item, with words in it cut into several items. -/
inductive Spreads : Item → List Item → Prop
  | word {run} : Solid run → (∀ x ∈ run, x.isLeaf = true) → Spreads (word (renderAll run)) run
  | literal (s) : Spreads (literal s) [literal s]
  | space (s) : Spreads (space s) [space s]
  | symbol (s) : Spreads (symbol s) [symbol s]
  | call {name} {zs : List (Item × List Item)} : (∀ z ∈ zs, Spreads z.1 z.2) →
      Spreads (call name (zs.map Prod.fst)) [call name (zs.flatMap Prod.snd)]
  | group {zs : List (Item × List Item)} : (∀ z ∈ zs, Spreads z.1 z.2) →
      Spreads (group (zs.map Prod.fst)) [group (zs.flatMap Prod.snd)]

def SpreadsAll (items parts : List Item) : Prop :=
  ∃ zs : List (Item × List Item), items = zs.map Prod.fst ∧ parts = zs.flatMap Prod.snd ∧
    ∀ z ∈ zs, Spreads z.1 z.2

theorem Spreads.all {item : Item} {parts : List Item} (h : Spreads item parts) :
    SpreadsAll [item] parts :=
  ⟨[(item, parts)], rfl, by simp, List.forall_mem_singleton.mpr h⟩

theorem spreadsAll_nil : SpreadsAll [] [] := ⟨[], rfl, rfl, by simp⟩

theorem SpreadsAll.append {items items' parts parts' : List Item} (h : SpreadsAll items parts)
    (h' : SpreadsAll items' parts') : SpreadsAll (items ++ items') (parts ++ parts') := by
  obtain ⟨zs, rfl, rfl, hzs⟩ := h
  obtain ⟨zs', rfl, rfl, hzs'⟩ := h'
  exact ⟨zs ++ zs', List.map_append.symm, List.flatMap_append.symm,
    List.forall_mem_append.mpr ⟨hzs, hzs'⟩⟩

theorem SpreadsAll.call {items parts : List Item} (h : SpreadsAll items parts) (name : Text) :
    Spreads (Item.call name items) [Item.call name parts] := by
  obtain ⟨zs, rfl, rfl, hzs⟩ := h
  exact .call hzs

theorem SpreadsAll.group {items parts : List Item} (h : SpreadsAll items parts) :
    Spreads (Item.group items) [Item.group parts] := by
  obtain ⟨zs, rfl, rfl, hzs⟩ := h
  exact .group hzs

theorem spreadsAll_flatMap {zs : List (Item × List Item)} {f : Item → List Item}
    {g : Item → List Item} (h : ∀ z ∈ zs, SpreadsAll (f z.1) (z.2.flatMap g)) :
    SpreadsAll ((zs.map Prod.fst).flatMap f) ((zs.flatMap Prod.snd).flatMap g) := by
  induction zs with
  | nil => exact spreadsAll_nil
  | cons z zs ih =>
    rw [List.forall_mem_cons] at h
    rw [List.map_cons, List.flatMap_cons, List.flatMap_cons, List.flatMap_append]
    exact h.1.append (ih h.2)

theorem spreadsAll_map {zs : List (Item × List Item)} {f : Item → Item}
    (h : ∀ z ∈ zs, SpreadsAll [f z.1] (z.2.map f)) :
    SpreadsAll ((zs.map Prod.fst).map f) ((zs.flatMap Prod.snd).map f) := by
  induction zs with
  | nil => exact spreadsAll_nil
  | cons z zs ih =>
    rw [List.forall_mem_cons] at h
    rw [List.flatMap_cons, List.map_append]
    exact h.1.append (ih h.2)

theorem renderAll_append (items items' : List Item) :
    renderAll (items ++ items') = renderAll items ++ renderAll items' := by
  induction items with
  | nil => rfl
  | cons item items ih => rw [List.cons_append, renderAll, renderAll, ih, List.append_assoc]

theorem renderAll_singleton (item : Item) : renderAll [item] = item.render := by
  rw [renderAll, renderAll, List.append_nil]

theorem renderAll_spreads {zs : List (Item × List Item)}
    (h : ∀ z ∈ zs, renderAll z.2 = z.1.render) :
    renderAll (zs.flatMap Prod.snd) = renderAll (zs.map Prod.fst) := by
  induction zs with
  | nil => rfl
  | cons z zs ih =>
    rw [List.forall_mem_cons] at h
    rw [List.flatMap_cons, List.map_cons, renderAll_append, renderAll, h.1, ih h.2]

theorem Spreads.render {item : Item} {parts : List Item} (h : Spreads item parts) :
    renderAll parts = item.render := by
  induction h with
  | word => rw [Item.render]
  | literal | space | symbol => exact renderAll_singleton _
  | call _ ih => rw [renderAll_singleton, Item.render, Item.render, renderAll_spreads ih]
  | group _ ih => rw [renderAll_singleton, Item.render, Item.render, renderAll_spreads ih]

theorem SpreadsAll.renderAll {items parts : List Item} (h : SpreadsAll items parts) :
    Item.renderAll parts = Item.renderAll items := by
  obtain ⟨zs, rfl, rfl, hzs⟩ := h
  exact renderAll_spreads fun z hz => (hzs z hz).render

theorem Spreads.ne_nil {item : Item} {parts : List Item} (h : Spreads item parts) : parts ≠ [] := by
  cases h with
  | word hsolid => exact hsolid.nonempty
  | literal | space | symbol | call | group => exact List.cons_ne_nil _ _

theorem SpreadsAll.isEmpty {items parts : List Item} (h : SpreadsAll items parts) :
    parts.isEmpty = items.isEmpty := by
  obtain ⟨_ | ⟨⟨item, part⟩, zs⟩, rfl, rfl, hzs⟩ := h
  · rfl
  · obtain ⟨x, xs, hpart⟩ := List.exists_cons_of_ne_nil (hzs _ List.mem_cons_self).ne_nil
    rw [List.flatMap_cons, hpart]
    rfl

theorem Spreads.carries {item : Item} {parts : List Item} (h : Spreads item parts) :
    Carries Prod.fst Prod.snd (item, parts) := by
  cases h with
  | word hsolid => exact hsolid
  | space => rfl
  | symbol s =>
    have hkept : Carries id (fun x => [id x]) (Item.symbol s) := carries_key _
    exact hkept
  | literal | call | group => exact solid_singleton rfl rfl

theorem trimSpaces_singletons {α : Type} (key : α → Item) (as : List α) :
    trimSpaces (as.map key) = (trimBy key as).map key := by
  rw [List.map_eq_flatMap, List.map_eq_flatMap]
  exact trimSpaces_flatMap fun a _ => carries_key a

theorem arguments_singletons {α : Type} (key : α → Item) (as : List α) :
    arguments (as.map key) = (argumentsBy key as).map (·.map key) := by
  rw [List.map_eq_flatMap, arguments_flatMap fun a _ => carries_key a]
  exact List.map_congr_left fun piece _ => List.map_eq_flatMap.symm

theorem spreadsAll_nativeCall {name : Text} {args parts : List Item} (h : SpreadsAll args parts) :
    SpreadsAll (nativeCall name args) (nativeCall name parts) := by
  have hcall : SpreadsAll [call name args] [call name parts] := (h.call name).all
  obtain ⟨zs, rfl, rfl, hzs⟩ := h
  have hcarries : ∀ z ∈ zs, Carries Prod.fst Prod.snd z := fun z hz => (hzs z hz).carries
  have hsome : ∀ piece : List (Item × List Item), (∀ z ∈ piece, z ∈ zs) →
      SpreadsAll (piece.map Prod.fst) (piece.flatMap Prod.snd) := fun piece hmem =>
    ⟨piece, rfl, rfl, fun z hz => hzs z (hmem z hz)⟩
  have hsymbol : ∀ s, SpreadsAll [symbol s] [symbol s] := fun s => (Spreads.symbol s).all
  unfold nativeCall
  split
  · next operator hname =>
    rw [arguments_singletons, arguments_flatMap hcarries]
    have hpieces : ∀ piece ∈ argumentsBy Prod.fst zs,
        SpreadsAll (piece.map Prod.fst) (piece.flatMap Prod.snd) := fun piece hpiece =>
      hsome piece fun z => mem_of_mem_argumentsBy Prod.fst hpiece
    generalize argumentsBy Prod.fst zs = pieces at hpieces
    -- Only two arguments leave the call.
    obtain _ | ⟨left, _ | ⟨right, _ | ⟨third, more⟩⟩⟩ := pieces
    case cons.cons.nil =>
      rw [List.forall_mem_cons, List.forall_mem_singleton] at hpieces
      exact hpieces.1.append ((hsymbol _).append hpieces.2)
    all_goals exact hcall
  · split
    · next test hname =>
      rw [trimSpaces_singletons, trimSpaces_flatMap hcarries]
      have htrim : SpreadsAll ((trimBy Prod.fst zs).map Prod.fst)
          ((trimBy Prod.fst zs).flatMap Prod.snd) :=
        hsome _ fun z => mem_of_mem_trimBy Prod.fst
      rw [htrim.isEmpty]
      split
      · exact hcall
      · exact htrim.append (hsymbol _)
    · exact hcall

theorem native_leaf {x : Item} (h : x.isLeaf = true) : x.native = [x] := by
  cases x with
  | call | group => cases h
  | word | literal | space | symbol => rw [native]

/-- Operators are put between the same things, whether an access is one word or several items. -/
theorem Spreads.native {item : Item} {parts : List Item} (h : Spreads item parts) :
    SpreadsAll item.native (nativeAll parts) := by
  rw [nativeAll_eq_flatMap]
  induction h with
  | @word run hsolid hleaf =>
    have hsame : run.flatMap Item.native = run := by
      rw [List.flatMap_congr fun x hx => native_leaf (hleaf x hx)]
      exact List.flatMap_singleton' run
    rw [hsame, Item.native]
    exact (Spreads.word hsolid hleaf).all
  | literal s =>
    rw [List.flatMap_singleton, Item.native]
    exact (Spreads.literal s).all
  | space s =>
    rw [List.flatMap_singleton, Item.native]
    exact (Spreads.space s).all
  | symbol s =>
    rw [List.flatMap_singleton, Item.native]
    exact (Spreads.symbol s).all
  | call _ ih =>
    rw [List.flatMap_singleton, Item.native, Item.native, nativeAll_eq_flatMap,
      nativeAll_eq_flatMap]
    exact spreadsAll_nativeCall (spreadsAll_flatMap ih)
  | group _ ih =>
    rw [List.flatMap_singleton, Item.native, Item.native, nativeAll_eq_flatMap,
      nativeAll_eq_flatMap]
    exact (spreadsAll_flatMap ih).group.all

theorem SpreadsAll.native {items parts : List Item} (h : SpreadsAll items parts) :
    SpreadsAll (nativeAll items) (nativeAll parts) := by
  obtain ⟨zs, rfl, rfl, hzs⟩ := h
  rw [nativeAll_eq_flatMap, nativeAll_eq_flatMap]
  refine spreadsAll_flatMap fun z hz => ?_
  rw [← nativeAll_eq_flatMap]
  exact (hzs z hz).native

section Binding

variable {graph : Text} {var : Option Text}

theorem bindModelTest_leaf {x : Item} (h : x.isLeaf = true) : x.bindModelTest graph var = x := by
  cases x with
  | call | group => cases h
  | word | literal | space | symbol => rw [bindModelTest]

def modelSubject (var : Option Text) : List Item :=
  match var with
  | some var => [word var, symbol [',']]
  | none => []

theorem bindModelTest_call (name : Text) (args : List Item) :
    (call name args).bindModelTest graph var =
      if name.sameLetters "IS_OF_MODEL" then
        call (Text.joined [graph, ".is_of_model"])
          (modelSubject var ++ args.map (Item.bindModelTest graph var))
      else call name (args.map (Item.bindModelTest graph var)) := by
  rw [← bindModelTestAll_eq_map]
  conv => lhs; unfold Item.bindModelTest
  cases var <;> rfl

theorem spreads_word (w : Text) : Spreads (word w) [word w] := by
  have hword : Spreads (Item.word (Item.renderAll [Item.word w])) [Item.word w] :=
    .word (solid_singleton rfl rfl) (List.forall_mem_singleton.mpr rfl)
  rwa [renderAll_singleton, Item.render] at hword

theorem Spreads.bindModelTest {item : Item} {parts : List Item} (h : Spreads item parts) :
    SpreadsAll [item.bindModelTest graph var] (parts.map (Item.bindModelTest graph var)) := by
  induction h with
  | @word run hsolid hleaf =>
    have hsame : run.map (Item.bindModelTest graph var) = run := by
      rw [List.map_congr_left fun x hx => bindModelTest_leaf (hleaf x hx)]
      exact List.map_id' run
    rw [hsame, Item.bindModelTest]
    exact (Spreads.word hsolid hleaf).all
  | literal s =>
    rw [List.map_singleton, Item.bindModelTest]
    exact (Spreads.literal s).all
  | space s =>
    rw [List.map_singleton, Item.bindModelTest]
    exact (Spreads.space s).all
  | symbol s =>
    rw [List.map_singleton, Item.bindModelTest]
    exact (Spreads.symbol s).all
  | call _ ih =>
    have hargs := spreadsAll_map ih
    rw [List.map_singleton, bindModelTest_call, bindModelTest_call]
    split
    · refine ((SpreadsAll.append ?_ hargs).call _).all
      cases var with
      | none => exact spreadsAll_nil
      | some v => exact (spreads_word v).all.append (Spreads.symbol [',']).all
    · exact (hargs.call _).all
  | group _ ih =>
    rw [List.map_singleton, Item.bindModelTest, Item.bindModelTest, bindModelTestAll_eq_map,
      bindModelTestAll_eq_map]
    exact (spreadsAll_map ih).group.all

theorem SpreadsAll.bindModelTest {items parts : List Item} (h : SpreadsAll items parts) :
    SpreadsAll (bindModelTestAll graph var items) (bindModelTestAll graph var parts) := by
  obtain ⟨zs, rfl, rfl, hzs⟩ := h
  rw [bindModelTestAll_eq_map, bindModelTestAll_eq_map]
  exact spreadsAll_map fun z hz => (hzs z hz).bindModelTest

end Binding

/-! ### Brackets can be put first -/

theorem carries_bracket (item : Item) : Carries id (fun x => [x.bracket]) item := by
  rw [Carries]
  cases item with
  | symbol s =>
    have hkept : Carries id (fun x => [id x]) (symbol s) := carries_key _
    rw [bracket]
    exact hkept
  | space s =>
    rw [bracket]
    rfl
  | word | literal | call | group =>
    rw [bracket]
    exact solid_singleton rfl rfl

theorem trimSpaces_bracket (items : List Item) :
    trimSpaces (items.map bracket) = (trimSpaces items).map bracket := by
  rw [List.map_eq_flatMap, trimSpaces_flatMap fun item _ => carries_bracket item, trimBy_id,
    List.map_eq_flatMap]

theorem arguments_bracket (items : List Item) :
    arguments (items.map bracket) = (arguments items).map (·.map bracket) := by
  rw [List.map_eq_flatMap, arguments_flatMap fun item _ => carries_bracket item, argumentsBy_id]
  exact List.map_congr_left fun piece _ => List.map_eq_flatMap.symm

theorem nativeCall_bracket (name : Text) (args : List Item) :
    nativeCall name (args.map bracket) = (nativeCall name args).map bracket := by
  have hcall : [call name (args.map bracket)] = [call name args].map bracket := by
    rw [List.map_singleton, bracket, bracketAll_eq_map]
  have hsymbol : ∀ s, bracket (symbol s) = symbol s := fun s => by rw [bracket]
  unfold nativeCall
  rw [arguments_bracket, trimSpaces_bracket, List.isEmpty_map]
  split
  · generalize arguments args = pieces
    obtain _ | ⟨left, _ | ⟨right, _ | ⟨third, more⟩⟩⟩ := pieces
    case cons.cons.nil => simp [hsymbol]
    all_goals exact hcall
  · split
    · split
      · exact hcall
      · simp [hsymbol]
    · exact hcall

mutual

theorem native_bracket : (item : Item) → item.bracket.native = item.native.map bracket
  | word s | literal s | space s | symbol s => by simp [native, bracket]
  | call name args => by rw [bracket, native, native, nativeAll_bracket args, nativeCall_bracket]
  | group items => by
    rw [bracket, native, native, nativeAll_bracket items, List.map_singleton, bracket,
      bracketAll_eq_map]

theorem nativeAll_bracket : (items : List Item) →
    nativeAll (bracketAll items) = (nativeAll items).map bracket
  | [] => by rw [bracketAll, nativeAll, List.map_nil]
  | item :: items => by
    rw [bracketAll, nativeAll, nativeAll, native_bracket item, nativeAll_bracket items,
      List.map_append]

end

theorem modelSubject_bracket {var : Option Text}
    (hvar : ∀ v ∈ var, ∀ c ∈ v, (c == '.') = false) :
    (modelSubject var).map bracket = modelSubject var := by
  cases var with
  | none => rfl
  | some v => simp [modelSubject, bracket, bracketPath_plain (hvar v rfl)]

mutual

theorem bindModelTest_bracket (graph : Text) {var : Option Text}
    (hvar : ∀ v ∈ var, ∀ c ∈ v, (c == '.') = false) : (item : Item) →
    item.bracket.bindModelTest graph var = (item.bindModelTest graph var).bracket
  | word s | literal s | space s | symbol s => by simp [bindModelTest, bracket]
  | call name args => by
    have hargs := bindModelTestAll_bracket graph hvar args
    rw [bindModelTestAll_eq_map, bracketAll_eq_map, bindModelTestAll_eq_map] at hargs
    rw [bracket, bracketAll_eq_map, bindModelTest_call, bindModelTest_call, hargs]
    split
    · rw [bracket, bracketAll_eq_map, List.map_append, modelSubject_bracket hvar]
    · rw [bracket, bracketAll_eq_map]
  | group items => by
    rw [bracket, bindModelTest, bindModelTest, bindModelTestAll_bracket graph hvar items, bracket,
      bracketAll_eq_map]

theorem bindModelTestAll_bracket (graph : Text) {var : Option Text}
    (hvar : ∀ v ∈ var, ∀ c ∈ v, (c == '.') = false) : (items : List Item) →
    bindModelTestAll graph var (bracketAll items) =
      (bindModelTestAll graph var items).map bracket
  | [] => by rw [bracketAll, bindModelTestAll, List.map_nil]
  | item :: items => by
    rw [bracketAll, bindModelTestAll, bindModelTestAll, bindModelTest_bracket graph hvar item,
      bindModelTestAll_bracket graph hvar items, List.map_cons]

end

end Item

/-! ### The conditions -/

open Item

namespace Phrase

mutual

def unit (f : Access → Text) : Phrase → Item
  | access a => .word (f a)
  | keyword w => .word w
  | literal s => .literal s
  | space s => .space s
  | symbol s => .symbol s
  | call name args => .call name (unitAll f args)
  | group ps => .group (unitAll f ps)

def unitAll (f : Access → Text) : List Phrase → List Item
  | [] => []
  | p :: ps => p.unit f :: unitAll f ps

end

/-- All accesses in the phrase are as the condition says, and its operator words are some. -/
inductive Each (P : Access → Prop) : Phrase → Prop
  | access {a} : P a → Each P (access a)
  | keyword {w} : operatorWords.any (Text.sameLetters w) = true → Each P (keyword w)
  | literal (s) : Each P (literal s)
  | space (s) : Each P (space s)
  | symbol (s) : Each P (symbol s)
  | call {name args} : (∀ p ∈ args, Each P p) → Each P (call name args)
  | group {ps} : (∀ p ∈ ps, Each P p) → Each P (group ps)

theorem unitAll_eq_map (f : Access → Text) (ps : List Phrase) : unitAll f ps = ps.map (unit f) := by
  induction ps with
  | nil => rw [unitAll, List.map_nil]
  | cons p ps ih => rw [unitAll, ih, List.map_cons]

theorem Each.unit_congr {P Q : Access → Prop} {f g : Access → Text}
    (h : ∀ a, P a → Q a → f a = g a) {p : Phrase} (hp : p.Each P) (hq : p.Each Q) :
    p.unit f = p.unit g := by
  induction hp with
  | access ha =>
    cases hq with
    | access ha' => rw [unit, unit, h _ ha ha']
  | keyword | literal | space | symbol => rw [unit, unit]
  | call _ ih =>
    cases hq with
    | call hargs =>
      rw [unit, unit, unitAll_eq_map, unitAll_eq_map,
        List.map_congr_left fun p hp => ih p hp (hargs p hp)]
  | group _ ih =>
    cases hq with
    | group hps =>
      rw [unit, unit, unitAll_eq_map, unitAll_eq_map,
        List.map_congr_left fun p hp => ih p hp (hps p hp)]

/-! ### The accesses that are found -/

/-- The steps could follow a word of an access. -/
structure Follow (steps : List Step) : Prop where
  dotted : ∀ name, Step.dotted name ∈ steps → IsSegment name
  bracketed : ∀ key, Step.bracketed key ∈ steps → isString key = true
  names : ∀ w, word w ∈ Access.itemsFrom none steps →
    operatorWords.any (Text.sameLetters w) = false

theorem follow_bracketed {key : Text} {steps : List Step} (hkey : isString key = true)
    (h : Follow steps) : Follow (.bracketed key :: steps) := by
  refine ⟨fun name hname => h.dotted name (by simpa using hname), fun key' hkey' => ?_, ?_⟩
  · rcases List.mem_cons.mp hkey' with heq | hkey'
    · cases heq
      exact hkey
    · exact h.bracketed key' hkey'
  · simpa [Access.itemsFrom] using h.names

theorem follow_dotted {a : Access} (ha : a.Legal) : Follow (.dotted a.head :: a.steps) := by
  refine ⟨fun name hname => ?_, fun key hkey => ha.bracketed key (by simpa using hkey), ?_⟩
  · rcases List.mem_cons.mp hname with heq | hname
    · cases heq
      exact ha.head
    · exact ha.dotted name hname
  · simpa [Access.itemsFrom, Access.items] using ha.names

theorem follow_nil : Follow [] := ⟨by simp, by simp, by simp [Access.itemsFrom]⟩

theorem follow_stepsBehind {ps : List Phrase} (h : ∀ p ∈ ps, p.Each Access.Legal) :
    Follow (stepsBehind ps).1 ∧ ∀ p ∈ (stepsBehind ps).2, p.Each Access.Legal := by
  fun_induction stepsBehind ps with
  | case1 key hkey a rest =>
    simp only [List.forall_mem_cons] at h
    obtain ⟨-, -, -, -, haccess, hrest⟩ := h
    cases haccess with
    | access ha => exact ⟨follow_bracketed hkey (follow_dotted ha), hrest⟩
  | case2 key hkey rest _ ih =>
    simp only [List.forall_mem_cons] at h
    obtain ⟨hfollow, hrest⟩ := ih h.2.2.2
    exact ⟨follow_bracketed hkey hfollow, hrest⟩
  | case3 | case4 => exact ⟨follow_nil, h⟩

theorem each_behindWord {w : Text} (hw : ∀ piece ∈ w.pieces (· == '.'), IsSegment piece)
    (hname : operatorWords.any (Text.sameLetters w) = false) {ps : List Phrase}
    (h : ∀ p ∈ ps, p.Each Access.Legal) : ∀ p ∈ behindWord w ps, p.Each Access.Legal := by
  obtain ⟨head, names, hpieces⟩ := List.exists_cons_of_ne_nil (Text.pieces_ne_nil (· == '.') w)
  obtain ⟨hfollow, hrest⟩ := follow_stepsBehind h
  have hwhole := intercalate_pieces '.' w
  rw [hpieces] at hw hwhole
  rw [List.forall_mem_cons] at hw
  rw [behindWord, hpieces, List.forall_mem_cons]
  refine ⟨.access ⟨⟨hw.1, fun name hmem => ?_, fun w' hw' => ?_⟩, fun key hkey => ?_⟩, hrest⟩
  · rcases List.mem_append.mp hmem with hmem | hmem
    · obtain ⟨name', hname', heq⟩ := List.mem_map.mp hmem
      cases heq
      exact hw.2 name hname'
    · exact hfollow.dotted name hmem
  · rw [Access.items, itemsFrom_dotted, hwhole, itemsFrom_stepsBehind] at hw'
    rcases List.mem_cons.mp hw' with heq | hw'
    · cases heq
      exact hname
    · exact hfollow.names w' hw'
  · rcases List.mem_append.mp hkey with hkey | hkey
    · obtain ⟨_, -, heq⟩ := List.mem_map.mp hkey
      cases heq
    · exact hfollow.bracketed key hkey

end Phrase

namespace Item

mutual

theorem each_phraseBefore : (item : Item) → {ps : List Phrase} →
    (∀ w, Token.word w ∈ item.tokens → ∀ piece ∈ w.pieces (· == '.'), IsSegment piece) →
    (∀ p ∈ ps, p.Each Access.Legal) → ∀ p ∈ item.phraseBefore ps, p.Each Access.Legal
  | word w, ps, hwords, hps => by
    rw [phraseBefore]
    split
    · next hw => exact List.forall_mem_cons.mpr ⟨.keyword hw, hps⟩
    · next hw =>
      exact Phrase.each_behindWord (hwords w (by simp [tokens])) (Bool.eq_false_iff.mpr hw) hps
  | literal s, ps, _, hps => by
    rw [phraseBefore]
    exact List.forall_mem_cons.mpr ⟨.literal s, hps⟩
  | space s, ps, _, hps => by
    rw [phraseBefore]
    exact List.forall_mem_cons.mpr ⟨.space s, hps⟩
  | symbol s, ps, _, hps => by
    rw [phraseBefore]
    exact List.forall_mem_cons.mpr ⟨.symbol s, hps⟩
  | call name args, ps, hwords, hps => by
    rw [phraseBefore]
    refine List.forall_mem_cons.mpr ⟨.call (each_phrases args fun w hw => hwords w ?_), hps⟩
    simp [tokens, hw]
  | group items, ps, hwords, hps => by
    rw [phraseBefore]
    refine List.forall_mem_cons.mpr ⟨.group (each_phrases items fun w hw => hwords w ?_), hps⟩
    simp [tokens, hw]

theorem each_phrases : (items : List Item) →
    (∀ w, Token.word w ∈ tokensAll items → ∀ piece ∈ w.pieces (· == '.'), IsSegment piece) →
    ∀ p ∈ phrases items, p.Each Access.Legal
  | [], _ => by simp [phrases]
  | item :: items, hwords => by
    rw [phrases]
    refine each_phraseBefore item (fun w hw => hwords w ?_)
      (each_phrases items fun w hw => hwords w ?_)
    · simp [tokensAll, hw]
    · simp [tokensAll, hw]

end

mutual

theorem items_phraseBefore : (item : Item) → (ps : List Phrase) →
    Phrase.itemsAll (item.phraseBefore ps) = item :: Phrase.itemsAll ps
  | word w, ps => by
    rw [phraseBefore]
    split
    · rw [Phrase.itemsAll, Phrase.items, List.singleton_append]
    · exact Phrase.items_behindWord w ps
  | literal s, ps | space s, ps | symbol s, ps => by
    rw [phraseBefore, Phrase.itemsAll, Phrase.items, List.singleton_append]
  | call name args, ps => by
    rw [phraseBefore, Phrase.itemsAll, Phrase.items, items_phrases args, List.singleton_append]
  | group items, ps => by
    rw [phraseBefore, Phrase.itemsAll, Phrase.items, items_phrases items, List.singleton_append]

/-- The phrases are made of the items that were grouped. -/
theorem items_phrases : (items : List Item) → Phrase.itemsAll (phrases items) = items
  | [] => by rw [phrases, Phrase.itemsAll]
  | item :: items => by rw [phrases, items_phraseBefore item, items_phrases items]

end

end Item

namespace Item

theorem inScope_call (var : Option Text) (name : Text) (args : List Item) :
    (call name args).inScope var = call name (args.map (inScope var)) := by
  cases var with
  | none => rw [inScope, bracket, bracketAll_eq_map]; rfl
  | some v =>
    rw [inScope, qualify, bracket, bracketAll_eq_map, qualifyAll_eq_map, List.map_map]
    rfl

theorem inScope_group (var : Option Text) (items : List Item) :
    (group items).inScope var = group (items.map (inScope var)) := by
  cases var with
  | none => rw [inScope, bracket, bracketAll_eq_map]; rfl
  | some v =>
    rw [inScope, qualify, bracket, bracketAll_eq_map, qualifyAll_eq_map, List.map_map]
    rfl

theorem inScope_space (var : Option Text) (s : Text) : (space s).inScope var = space s := by
  cases var <;> simp [inScope, qualify, bracket]

theorem inScope_keyword (var : Option Text) {w : Text}
    (hw : operatorWords.any (Text.sameLetters w) = true) : (word w).inScope var = word w := by
  obtain ⟨keyword, hmem, hsame⟩ := List.any_eq_true.mp hw
  have hall : ∀ keyword ∈ operatorWords, IsKeyword keyword := by decide
  have hplain : bracketPath w = w := by
    refine bracketPath_plain fun c hc => Bool.eq_false_iff.mpr fun hpoint => ?_
    have hchar := isNameChar_of_sameLetters (hall keyword hmem) hsame c hc
    rw [beq_iff_eq.mp hpoint] at hchar
    cases hchar
  cases var with
  | none => rw [inScope, bracket, hplain]
  | some v =>
    rw [inScope, qualify, if_pos hw, bracket, hplain]

structure Inner (item : Item) : Prop where
  leaf : item.isLeaf = true
  space : item.isSpace = false
  comma : item.isComma = false

theorem Inner.inScope {item : Item} (h : item.Inner) (var : Option Text) :
    (item.inScope var).Inner := by
  cases item with
  | call | group => cases h.leaf
  | space s => cases h.space
  | literal s =>
    rw [inScope_literal]
    exact h
  | symbol s =>
    rw [inScope_symbol]
    exact h
  | word w =>
    by_cases hw : operatorWords.any (Text.sameLetters w) = true
    · rw [inScope_keyword var hw]
      exact h
    · rw [inScope_word (Bool.eq_false_iff.mpr hw)]
      exact ⟨rfl, rfl, rfl⟩

theorem solid_of_inner {run : List Item} (hne : run ≠ []) (h : ∀ x ∈ run, x.Inner) : Solid run :=
  ⟨⟨fun x hx => (h x (List.mem_of_mem_head? hx)).space,
    fun x hx => (h x (List.mem_of_getLast? hx)).space⟩, hne, fun x hx => (h x hx).comma⟩

end Item

namespace Access

theorem inner_itemsFrom (w : Option Text) (steps : List Step) :
    ∀ x ∈ itemsFrom w steps, x.Inner := by
  fun_induction itemsFrom w steps with
  | case1 => simp
  | case2 w => exact List.forall_mem_singleton.mpr ⟨rfl, rfl, rfl⟩
  | case3 s steps ih => exact List.forall_mem_cons.mpr ⟨⟨rfl, rfl, rfl⟩, ih⟩
  | case4 w s steps ih => exact ih
  | case5 key steps ih =>
    simp only [List.forall_mem_cons]
    exact ⟨⟨rfl, rfl, rfl⟩, ⟨rfl, rfl, rfl⟩, ⟨rfl, rfl, rfl⟩, ih⟩
  | case6 w key steps ih =>
    simp only [List.forall_mem_cons]
    exact ⟨⟨rfl, rfl, rfl⟩, ⟨rfl, rfl, rfl⟩, ⟨rfl, rfl, rfl⟩, ⟨rfl, rfl, rfl⟩, ih⟩

theorem itemsFrom_ne_nil (w : Text) (steps : List Step) : itemsFrom (some w) steps ≠ [] := by
  induction steps generalizing w with
  | nil => exact List.cons_ne_nil _ _
  | cons step steps ih =>
    cases step with
    | dotted s => exact ih _
    | bracketed key => exact List.cons_ne_nil _ _

/-- What an access becomes counts as one word. -/
theorem spreads_emitted (a : Access) (var : Option Text) :
    Spreads (word (renderAll (a.emitted var))) (a.emitted var) := by
  have hinner : ∀ x ∈ a.emitted var, x.Inner := by
    rw [emitted, List.forall_mem_map]
    exact fun x hx => (inner_itemsFrom _ _ x hx).inScope var
  have hne : a.emitted var ≠ [] := List.map_eq_nil_iff.not.mpr (itemsFrom_ne_nil _ _)
  exact .word (solid_of_inner hne hinner) fun x hx => (hinner x hx).leaf

end Access

namespace Phrase

theorem spreadsAll_units {var : Option Text} {ps : List Phrase}
    (hps : ∀ p ∈ ps, SpreadsAll [p.unit fun a => renderAll (a.emitted var)]
      (p.items.map (inScope var))) :
    SpreadsAll (unitAll (fun a => renderAll (a.emitted var)) ps)
      ((itemsAll ps).map (inScope var)) := by
  induction ps with
  | nil =>
    rw [unitAll, itemsAll]
    exact spreadsAll_nil
  | cons p ps ih =>
    rw [List.forall_mem_cons] at hps
    rw [unitAll, itemsAll, List.map_append]
    exact hps.1.append (ih hps.2)

theorem Each.spreads {P : Access → Prop} {p : Phrase} (hp : p.Each P) (var : Option Text) :
    SpreadsAll [p.unit fun a => renderAll (a.emitted var)] (p.items.map (inScope var)) := by
  induction hp with
  | @access a _ =>
    rw [unit, items]
    exact (a.spreads_emitted var).all
  | @keyword w hw =>
    rw [unit, items, List.map_singleton, inScope_keyword var hw]
    exact (spreads_word w).all
  | literal s =>
    rw [unit, items, List.map_singleton, inScope_literal]
    exact (Spreads.literal s).all
  | space s =>
    rw [unit, items, List.map_singleton, inScope_space]
    exact (Spreads.space s).all
  | symbol s =>
    rw [unit, items, List.map_singleton, inScope_symbol]
    exact (Spreads.symbol s).all
  | call _ ih =>
    rw [unit, items, List.map_singleton, inScope_call]
    exact ((spreadsAll_units ih).call _).all
  | group _ ih =>
    rw [unit, items, List.map_singleton, inScope_group]
    exact (spreadsAll_units ih).group.all

def textWith (graph : Text) (var : Option Text) (f : Access → Text) (ps : List Phrase) : Text :=
  renderAll (bindModelTestAll graph var (nativeAll (unitAll f ps)))

end Phrase

namespace Query

/-- Names get the alias and brackets before anything else happens to them. -/
theorem conditionText_inScope (graph : Text) {var : Option Text}
    (hvar : ∀ v ∈ var, isIdentifier v = true) {s : Text} {items : List Item}
    (h : ofText? s = some items) : conditionText graph var s =
      .ok (renderAll (bindModelTestAll graph var (nativeAll (items.map (inScope var))))) := by
  have hpoint : ∀ v ∈ var, ∀ c ∈ v, (c == '.') = false := fun v hv =>
    IsSegment.not_point ⟨[], v, rfl, by simp, hvar v hv⟩
  have hbrackets : ∀ xs, bracketAll (bindModelTestAll graph var (nativeAll xs)) =
      bindModelTestAll graph var (nativeAll (xs.map bracket)) := by
    intro xs
    rw [bracketAll_eq_map, ← bindModelTestAll_bracket graph hpoint, bracketAll_eq_map,
      ← nativeAll_bracket, bracketAll_eq_map]
  unfold conditionText readItems
  rw [h]
  cases var with
  | none => exact congrArg (fun xs => Except.ok (renderAll xs)) (hbrackets items)
  | some v =>
    have hqualified := hbrackets (qualifyAll v items)
    rw [qualifyAll_eq_map, List.map_map, ← qualifyAll_eq_map] at hqualified
    exact congrArg (fun xs => Except.ok (renderAll xs)) hqualified

theorem ofText?_of_readItems {s : Text} {items : List Item} (h : readItems s = .ok items) :
    ofText? s = some items := by
  unfold readItems at h
  split at h
  · next heq =>
    cases h
    exact heq
  · cases h

/-- Whatever the condition, its accesses come out as units: each of them at its place, and in one
piece. An access is written with the alias once and all of its steps behind it, and no point is left
in front of a dollar sign, exactly if no point stands behind a bracket that must not. -/
theorem conditionText_by_access {graph : Text} {var : Option Text}
    (hvar : ∀ v ∈ var, isIdentifier v = true) {s : Text} {items : List Item}
    (h : readItems s = .ok items) :
    (Phrase.itemsAll (phrases items) = items ∧ ∀ p ∈ phrases items, p.Each Access.Legal) ∧
    conditionText graph var s =
      .ok (Phrase.textWith graph var (fun a => renderAll (a.emitted var)) (phrases items)) ∧
    (∀ a : Access, a.Legal → (renderAll (a.emitted var) = a.written var ↔ a.Whole var) ∧
      (hasDollarStep (renderAll (a.bare.emitted var)) = true ↔ var = none ∧ ¬a.Whole var)) ∧
    ((∀ p ∈ phrases items, p.Each (Access.Whole var)) → conditionText graph var s =
      .ok (Phrase.textWith graph var (Access.written var) (phrases items))) := by
  have hitems := ofText?_of_readItems h
  have hlegal : ∀ p ∈ phrases items, p.Each Access.Legal := by
    refine each_phrases items fun w hw => ?_
    rw [tokensAll_ofText? hitems] at hw
    exact Token.segments_of_mem_ofText hw
  have htext : conditionText graph var s =
      .ok (Phrase.textWith graph var (fun a => renderAll (a.emitted var)) (phrases items)) := by
    have hspreads := Phrase.spreadsAll_units fun p hp => (hlegal p hp).spreads var
    rw [items_phrases] at hspreads
    rw [conditionText_inScope graph hvar hitems, Phrase.textWith,
      hspreads.native.bindModelTest.renderAll]
  refine ⟨⟨items_phrases items, hlegal⟩, htext, fun a ha =>
    ⟨emitted_eq_written_iff hvar ha.toNamed, hasDollarStep_iff hvar ha.toNamed⟩, fun hwhole => ?_⟩
  have hunits : Phrase.unitAll (fun a => renderAll (a.emitted var)) (phrases items) =
      Phrase.unitAll (Access.written var) (phrases items) := by
    rw [Phrase.unitAll_eq_map, Phrase.unitAll_eq_map]
    exact List.map_congr_left fun p hp => (hlegal p hp).unit_congr
      (fun a ha hwhole => (emitted_eq_written_iff hvar ha.toNamed).mpr hwhole) (hwhole p hp)
  rw [htext, Phrase.textWith, hunits, Phrase.textWith]

theorem readItems_of_tokens {s : Text} {tokens : List Token} {items : List Item}
    (h : Token.ofText s = tokens) (hitems : assemble [] [] tokens = some items) :
    readItems s = .ok items := by
  rw [readItems, ofText?, h, hitems]

theorem phrases_word {w head : Text} {names : List Text}
    (hw : operatorWords.any (Text.sameLetters w) = false)
    (hpieces : w.pieces (· == '.') = head :: names) (items : List Item) :
    phrases (.word w :: items) =
      .access ⟨head, names.map Step.dotted ++ (Phrase.stepsBehind (phrases items)).1⟩ ::
        (Phrase.stepsBehind (phrases items)).2 := by
  rw [phrases, phraseBefore, if_neg (by simp [hw]), Phrase.behindWord, hpieces]

/-- `tags['x']=$etag.by` -/
def tagItems : List Item :=
  [.word "tags", .symbol ['['], .literal "'x'", .symbol [']'], .symbol ['='], .word "$etag.by"]

theorem phrases_tagItems : phrases tagItems =
    [.access ⟨"tags", [.bracketed "'x'"]⟩, .symbol ['='], .access ⟨"$etag", [.dotted "by"]⟩] := by
  have htag : Text.pieces (· == '.') "tags" = ["tags".toList] := by decide +kernel
  have hby : Text.pieces (· == '.') "$etag.by" = ["$etag".toList, "by".toList] := by decide +kernel
  have hlast := phrases_word (by decide +kernel) hby []
  rw [tagItems, phrases_word (by decide +kernel) htag, phrases, phrases, phrases, phrases, hlast]
  rfl

/-- Both accesses are whole, and so they are written with the alias once. -/
theorem tags_by_access :
    isIdentifier "T" = true ∧ readItems "tags['x']=$etag.by" = .ok tagItems ∧
    (∀ p ∈ phrases tagItems, p.Each (Access.Whole (some "T"))) ∧
    conditionText "g" (some "T") "tags['x']=$etag.by" =
      .ok (Phrase.textWith "g" (some "T") (Access.written (some "T")) (phrases tagItems)) ∧
    Phrase.textWith "g" (some "T") (Access.written (some "T")) (phrases tagItems) =
      "T.tags['x']=T['$etag'].by" := by
  have hvar : ∀ v ∈ some "T".toList, isIdentifier v = true := by
    rintro v ⟨⟩
    decide
  have htokens : Token.ofText "tags['x']=$etag.by" =
      [.word "tags", .symbol ['['], .literal "'x'", .symbol [']'], .symbol ['='],
        .word "$etag.by"] := by decide +kernel
  have hread : readItems "tags['x']=$etag.by" = .ok tagItems := readItems_of_tokens htokens rfl
  have hwhole : ∀ p ∈ phrases tagItems, p.Each (Access.Whole (some "T")) := by
    rw [phrases_tagItems, List.forall_mem_cons, List.forall_mem_cons, List.forall_mem_singleton]
    exact ⟨.access trivial, .symbol _, .access ⟨by simp, trivial⟩⟩
  refine ⟨by decide, hread, hwhole, (conditionText_by_access hvar hread).2.2.2 hwhole, ?_⟩
  rw [phrases_tagItems]
  decide +kernel

/-- `T['$metadata'].$model` -/
def modelAccess : Access := ⟨"T", [.bracketed "'$metadata'", .dotted "$model"]⟩

/-- A point behind a bracket is left in front of the dollar sign. -/
theorem model_step_is_left :
    readItems "T['$metadata'].$model" = .ok modelAccess.items ∧
    phrases modelAccess.items = [.access modelAccess] ∧
    modelAccess.written none = "T['$metadata']['$model']" ∧
    conditionText "g" none "T['$metadata'].$model" = .ok "T['$metadata'].$model" ∧
    hasDollarStep (renderAll (modelAccess.bare.emitted none)) = true ∧
    conditionText "g" (some "R") "T['$metadata'].$model" = .ok "R.T['$metadata'].R['$model']" := by
  have htokens : Token.ofText "T['$metadata'].$model" =
      [.word "T", .symbol ['['], .literal "'$metadata'", .symbol [']'], .symbol ['.'],
        .word "$model"] := by decide +kernel
  have hphrases : phrases modelAccess.items = [.access modelAccess] := by
    have hhead : Text.pieces (· == '.') "T" = ["T".toList] := by decide +kernel
    have hmodel : Text.pieces (· == '.') "$model" = ["$model".toList] := by decide +kernel
    have hlast := phrases_word (by decide +kernel) hmodel []
    have hitems : modelAccess.items = [.word "T", .symbol ['['], .literal "'$metadata'",
        .symbol [']'], .symbol ['.'], .word "$model"] := rfl
    rw [hitems, phrases_word (by decide +kernel) hhead, phrases, phrases, phrases, phrases, hlast]
    rfl
  exact ⟨readItems_of_tokens htokens rfl, hphrases, by decide +kernel, by decide +kernel,
    by decide +kernel, by decide +kernel⟩

end Query

end TwinGraph
