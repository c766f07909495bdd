import TwinGraph.Proofs.Query.Balance
import TwinGraph.Proofs.Query.Units

/-! Grouping as the inverse of flattening. Which items have the tokens of a text is said by two rules,
and the only such items are those that the tokens are grouped to: no token is lost, and a word in
front of an opening parenthesis, and no other, is the name of a call. -/
namespace TwinGraph

open Query Scan

namespace Token

def callName? : Token → List Token → Option Text
  | word w, opening :: _ => some w
  | _, _ => none

/-- The names of the calls with their places, for tokens that begin at the given place. -/
def callNames (place : Nat) : List Token → List (Nat × Text)
  | [] => []
  | t :: ts => ((t.callName? ts).map (place, ·)).toList ++ callNames (place + 1) ts

theorem callName?_eq_some {t : Token} {ts : List Token} {w : Text} :
    t.callName? ts = some w ↔ t = word w ∧ ts.head? = some opening := by
  unfold callName?
  split
  · next w' rest => simp
  · next hother =>
    constructor
    · intro h
      cases h
    · rintro ⟨rfl, h⟩
      obtain ⟨rest, rfl⟩ := List.head?_eq_some_iff.mp h
      exact absurd rfl (hother w rest rfl)

theorem mem_callNames {place i : Nat} {w : Text} {ts : List Token} :
    (i, w) ∈ callNames place ts ↔
      ∃ k, i = place + k ∧ ts[k]? = some (word w) ∧ ts[k + 1]? = some opening := by
  induction ts generalizing place with
  | nil => simp [callNames]
  | cons t ts ih =>
    have hfirst : (i, w) ∈ ((t.callName? ts).map (place, ·)).toList ↔
        i = place ∧ t = word w ∧ ts[0]? = some opening := by
      rw [Option.mem_toList, Option.map_eq_some_iff, ← List.head?_eq_getElem?]
      constructor
      · rintro ⟨w', hw, heq⟩
        cases heq
        exact ⟨rfl, callName?_eq_some.mp hw⟩
      · rintro ⟨rfl, h⟩
        exact ⟨w, callName?_eq_some.mpr h, rfl⟩
    rw [callNames, List.mem_append, hfirst, ih]
    constructor
    · rintro (⟨rfl, rfl, hbehind⟩ | ⟨k, rfl, hword, hbehind⟩)
      · exact ⟨0, rfl, rfl, hbehind⟩
      · exact ⟨k + 1, by omega, hword, hbehind⟩
    · rintro ⟨_ | k, rfl, hword, hbehind⟩
      · exact Or.inl ⟨rfl, Option.some.inj hword, hbehind⟩
      · exact Or.inr ⟨k, by omega, hword, hbehind⟩

theorem callNames_append {place : Nat} {ts us : List Token}
    (h : ∀ w, ts.getLast? = some (word w) → us.head? ≠ some opening) :
    callNames place (ts ++ us) = callNames place ts ++ callNames (place + ts.length) us := by
  induction ts generalizing place with
  | nil => rfl
  | cons t ts ih =>
    have hname : t.callName? (ts ++ us) = t.callName? ts := by
      refine Option.ext fun w => ?_
      rw [callName?_eq_some, callName?_eq_some]
      cases ts with
      | cons u ts => rfl
      | nil =>
        refine ⟨?_, fun hw => by cases hw.2⟩
        rintro ⟨rfl, hopening⟩
        exact absurd hopening (h w rfl)
    have hrest : ∀ w, ts.getLast? = some (word w) → us.head? ≠ some opening := fun w hw =>
      h w (by rw [List.getLast?_cons, hw]; rfl)
    rw [List.cons_append, callNames, callNames, hname, ih hrest, List.append_assoc,
      List.length_cons, Nat.add_assoc, Nat.add_comm 1]

theorem callNames_closing (place : Nat) (ts : List Token) :
    callNames place (ts ++ [closing]) = callNames place ts := by
  rw [callNames_append (by simp)]
  exact List.append_nil _

end Token

namespace Item

/-! ### Items of any depth -/

mutual

def parts : Item → List Item
  | word s => [word s]
  | literal s => [literal s]
  | space s => [space s]
  | symbol s => [symbol s]
  | call name args => call name args :: partsAll args
  | group items => group items :: partsAll items

def partsAll : List Item → List Item
  | [] => []
  | item :: items => item.parts ++ partsAll items

end

mutual

theorem nested_induction {P : Item → Prop} (leaf : ∀ x, x.isLeaf = true → P x)
    (call : ∀ name args, (∀ x ∈ args, P x) → P (call name args))
    (group : ∀ items, (∀ x ∈ items, P x) → P (group items)) : (item : Item) → P item
  | word _ => leaf _ rfl
  | literal _ => leaf _ rfl
  | space _ => leaf _ rfl
  | symbol _ => leaf _ rfl
  | .call name args => call name args (nested_induction_all leaf call group args)
  | .group items => group items (nested_induction_all leaf call group items)

theorem nested_induction_all {P : Item → Prop} (leaf : ∀ x, x.isLeaf = true → P x)
    (call : ∀ name args, (∀ x ∈ args, P x) → P (call name args))
    (group : ∀ items, (∀ x ∈ items, P x) → P (group items)) :
    (items : List Item) → ∀ x ∈ items, P x
  | [] => fun _ hx => absurd hx List.not_mem_nil
  | item :: items => List.forall_mem_cons.mpr
      ⟨nested_induction leaf call group item, nested_induction_all leaf call group items⟩

end

theorem partsAll_eq_flatMap (items : List Item) : partsAll items = items.flatMap parts := by
  induction items with
  | nil => rfl
  | cons item items ih => rw [partsAll, ih, List.flatMap_cons]

theorem partsAll_singleton (item : Item) : partsAll [item] = item.parts := by
  rw [partsAll, partsAll, List.append_nil]

theorem parts_leaf {x : Item} (h : x.isLeaf = true) : x.parts = [x] := by
  cases x with
  | call | group => cases h
  | word | literal | space | symbol => rfl

theorem self_mem_parts (item : Item) : item ∈ item.parts := by
  cases item <;> exact List.mem_cons_self

theorem mem_partsAll {x item : Item} {items : List Item} (hitem : item ∈ items)
    (hx : x ∈ item.parts) : x ∈ partsAll items := by
  rw [partsAll_eq_flatMap]
  exact List.mem_flatMap.mpr ⟨item, hitem, hx⟩

/-- What holds of an item as soon as it holds of the items inside, for the items of one tree. -/
theorem parts_induction {P : Item → Prop} {tree : List Item}
    (leaf : ∀ x ∈ partsAll tree, x.isLeaf = true → P x)
    (call : ∀ name args, call name args ∈ partsAll tree → (∀ x ∈ args, P x) → P (call name args))
    (group : ∀ items, (∀ x ∈ items, P x) → P (group items)) : ∀ x ∈ tree, P x := by
  have hsingle : ∀ item : Item, (∀ x ∈ item.parts, x ∈ partsAll tree) → P item := by
    intro item
    induction item using nested_induction with
    | leaf x hx => exact fun h => leaf x (h x (self_mem_parts x)) hx
    | call name args ih =>
      intro h
      refine call name args (h _ (self_mem_parts _)) fun x hx => ih x hx fun y hy => ?_
      exact h y (List.mem_cons_of_mem _ (mem_partsAll hx hy))
    | group items ih =>
      intro h
      refine group items fun x hx => ih x hx fun y hy => ?_
      exact h y (List.mem_cons_of_mem _ (mem_partsAll hx hy))
  exact fun x hx => hsingle x fun y hy => mem_partsAll hx hy

mutual

def calls (place : Nat) : Item → List (Nat × Text)
  | call name args => (place, name) :: callsAll (place + 2) args
  | group items => callsAll (place + 1) items
  | word _ | literal _ | space _ | symbol _ => []

def callsAll (place : Nat) : List Item → List (Nat × Text)
  | [] => []
  | item :: items => item.calls place ++ callsAll (place + item.tokens.length) items

end

/-- Two neighbours. A word in front of a group would be the name of a call. -/
def Beside : Item → Item → Prop
  | word _, group _ => False
  | _, _ => True

mutual

def Nested : Item → Prop
  | call _ args => Arranged args
  | group items => Arranged items
  | word _ | literal _ | space _ | symbol _ => True

/-- No word stands in front of a group, at any depth. -/
def Arranged : List Item → Prop
  | [] => True
  | item :: items => item.Nested ∧ (∀ next ∈ items.head?, Beside item next) ∧ Arranged items

end

theorem arranged_iff {items : List Item} :
    Arranged items ↔ (∀ item ∈ items, item.Nested) ∧ items.IsChain Beside := by
  induction items with
  | nil => simp [Arranged]
  | cons item items ih =>
    rw [Arranged, ih, List.forall_mem_cons, List.isChain_cons]
    tauto

theorem arranged_reverse_cons {item : Item} {items : List Item} :
    Arranged (item :: items).reverse ↔
      item.Nested ∧ (∀ last ∈ items.head?, Beside last item) ∧ Arranged items.reverse := by
  rw [arranged_iff, arranged_iff, List.reverse_cons, List.forall_mem_append,
    List.forall_mem_singleton, List.isChain_append]
  simp
  tauto

/-! ### Grouping -/

theorem after_word (w : Text) (before : List Item) :
    Frame.after (word w :: before) = ⟨some w, before⟩ := rfl

theorem after_of_beside {before items : List Item}
    (h : ∀ last ∈ before.head?, Beside last (group items)) : Frame.after before = ⟨none, before⟩ := by
  unfold Frame.after
  split
  · next w rest => exact (h (word w) rfl).elim
  · rfl

mutual

theorem assemble_tokens : (item : Item) → item.Nested → (frames : List Frame) →
    (before : List Item) → (∀ last ∈ before.head?, Beside last item) → (rest : List Token) →
    assemble frames before (item.tokens ++ rest) = assemble frames (item :: before) rest
  | word s, _, frames, before, _, rest | literal s, _, frames, before, _, rest
  | space s, _, frames, before, _, rest | symbol s, _, frames, before, _, rest => by
    rw [tokens, List.singleton_append, assemble]
  | call name args, hnested, frames, before, _, rest => by
    rw [tokens, List.cons_append, List.cons_append, List.append_assoc, assemble, assemble,
      after_word, assemble_tokensAll args hnested _ [] (by simp), List.append_nil,
      List.singleton_append, assemble, List.reverse_reverse]
    rfl
  | group items, hnested, frames, before, hbeside, rest => by
    rw [tokens, List.cons_append, List.append_assoc, assemble, after_of_beside hbeside,
      assemble_tokensAll items hnested _ [] (by simp), List.append_nil, List.singleton_append,
      assemble, List.reverse_reverse]
    rfl

theorem assemble_tokensAll : (items : List Item) → Arranged items → (frames : List Frame) →
    (before : List Item) →
    (∀ last ∈ before.head?, ∀ first ∈ items.head?, Beside last first) → (rest : List Token) →
    assemble frames before (tokensAll items ++ rest) = assemble frames (items.reverse ++ before) rest
  | [], _, _, _, _, _ => rfl
  | item :: items, harranged, frames, before, hbeside, rest => by
    obtain ⟨hitem, hnext, hitems⟩ := harranged
    have hjoin : ∀ last ∈ (item :: before).head?, ∀ first ∈ items.head?, Beside last first := by
      rintro last ⟨⟩ first hfirst
      exact hnext first hfirst
    rw [tokensAll, List.append_assoc,
      assemble_tokens item hitem frames before (fun last hlast => hbeside last hlast item rfl),
      assemble_tokensAll items hitems frames _ hjoin, List.reverse_cons, List.append_assoc,
      List.singleton_append]

end

structure Frame.Arranged (f : Frame) : Prop where
  before : Item.Arranged f.before.reverse
  nameless : f.name = none → ∀ w, f.before.head? ≠ some (word w)

theorem Frame.arranged_after {items : List Item} (h : Item.Arranged items.reverse) :
    (Frame.after items).Arranged := by
  unfold Frame.after
  split
  · next w before => exact ⟨(arranged_reverse_cons.mp h).2.2, fun hname => by cases hname⟩
  · next hother =>
    refine ⟨h, fun _ w hw => ?_⟩
    obtain ⟨before, rfl⟩ := List.head?_eq_some_iff.mp hw
    exact hother w before rfl

theorem beside_of_not_group {last item : Item} (h : ∀ items, item ≠ group items) :
    Beside last item := by
  unfold Beside
  split
  · next w items => exact (h items rfl).elim
  · trivial

theorem Frame.Arranged.close {f : Frame} (h : f.Arranged) {inner : List Item}
    (hinner : Item.Arranged inner) : Item.Arranged (f.close inner :: f.before).reverse := by
  rw [arranged_reverse_cons]
  unfold Frame.close
  split
  · exact ⟨hinner, fun _ _ => beside_of_not_group (by simp), h.before⟩
  · next hname =>
    refine ⟨hinner, fun last hlast => ?_, h.before⟩
    cases last with
    | word w => exact absurd hlast (h.nameless hname w)
    | literal | space | symbol | call | group => trivial

/-- Grouping leaves no word in front of a group: it has become the name of a call. -/
theorem arranged_assemble {frames : List Frame} {items out : List Item} {ts : List Token}
    (hframes : ∀ f ∈ frames, f.Arranged) (hitems : Arranged items.reverse)
    (h : assemble frames items ts = some out) : Arranged out := by
  fun_induction assemble frames items ts with
  | case1 items =>
    cases h
    exact hitems
  | case2 | case4 => cases h
  | case3 frames items rest ih =>
    exact ih (List.forall_mem_cons.mpr ⟨Frame.arranged_after hitems, hframes⟩) trivial h
  | case5 frame frames items rest ih =>
    rw [List.forall_mem_cons] at hframes
    exact ih hframes.2 (hframes.1.close hitems) h
  | case6 frames items s rest ih | case7 frames items s rest ih | case8 frames items s rest ih
  | case9 frames items s rest ih =>
    refine ih hframes (arranged_reverse_cons.mpr ⟨trivial, fun _ _ => ?_, hitems⟩) h
    exact beside_of_not_group (by simp)

/-- The items of a text are the only ones that have its tokens and no word in front of a group. -/
theorem ofText?_eq_some_iff {s : Text} {items : List Item} :
    ofText? s = some items ↔ tokensAll items = Token.ofText s ∧ Arranged items := by
  constructor
  · intro h
    have hnone : Arranged ([] : List Item).reverse := trivial
    exact ⟨tokensAll_ofText? h, arranged_assemble (by simp) hnone h⟩
  · rintro ⟨htokens, harranged⟩
    have h := assemble_tokensAll items harranged [] [] (by simp) []
    rw [List.append_nil, List.append_nil, htokens] at h
    rw [ofText?, h, assemble, List.reverse_reverse]

/-! ### Calls and their names -/

theorem word_of_getLast? {item : Item} {w : Text}
    (h : item.tokens.getLast? = some (.word w)) : item = word w := by
  cases item with
  | word s =>
    cases h
    rfl
  | literal | space | symbol => cases h
  | call name args => simp [tokens, List.getLast?_cons] at h
  | group items => simp [tokens, List.getLast?_cons] at h

theorem group_of_head? {items : List Item} (h : (tokensAll items).head? = some .opening) :
    ∃ inner, group inner ∈ items.head? := by
  cases items with
  | nil => cases h
  | cons item items =>
    cases item with
    | group inner => exact ⟨inner, rfl⟩
    | word | literal | space | symbol | call => cases h

mutual

theorem callNames_tokens : (item : Item) → item.Nested → (place : Nat) →
    Token.callNames place item.tokens = item.calls place
  | word _, _, _ | literal _, _, _ | space _, _, _ | symbol _, _, _ => rfl
  | call name args, hnested, place => by
    have hargs := callNames_tokensAll args hnested (place + 2)
    rw [← Token.callNames_closing] at hargs
    rw [tokens, calls, ← hargs]
    rfl
  | group items, hnested, place => by
    have hitems := callNames_tokensAll items hnested (place + 1)
    rw [← Token.callNames_closing] at hitems
    rw [tokens, calls, ← hitems]
    rfl

theorem callNames_tokensAll : (items : List Item) → Arranged items → (place : Nat) →
    Token.callNames place (tokensAll items) = callsAll place items
  | [], _, _ => rfl
  | item :: items, harranged, place => by
    obtain ⟨hitem, hnext, hitems⟩ := harranged
    have hjoin : ∀ w, item.tokens.getLast? = some (.word w) →
        (tokensAll items).head? ≠ some .opening := by
      intro w hword hopening
      obtain ⟨inner, hgroup⟩ := group_of_head? hopening
      have hbeside := hnext _ hgroup
      rw [word_of_getLast? hword] at hbeside
      exact hbeside
    rw [tokensAll, Token.callNames_append hjoin, callNames_tokens item hitem,
      callNames_tokensAll items hitems, callsAll]

end

/-! ### Symbols -/

mutual

theorem symbol_of_mem_parts {x : Text} : (item : Item) → symbol x ∈ item.parts →
    Token.symbol x ∈ item.tokens
  | symbol s, h => by
    cases List.mem_singleton.mp h
    exact List.mem_singleton.mpr rfl
  | word _, h | literal _, h | space _, h => by cases List.mem_singleton.mp h
  | call name args, h => by
    rw [parts, List.mem_cons] at h
    have hargs := symbol_of_mem_partsAll args (h.resolve_left (by simp))
    simp [tokens, hargs]
  | group items, h => by
    rw [parts, List.mem_cons] at h
    have hitems := symbol_of_mem_partsAll items (h.resolve_left (by simp))
    simp [tokens, hitems]

theorem symbol_of_mem_partsAll {x : Text} : (items : List Item) → symbol x ∈ partsAll items →
    Token.symbol x ∈ tokensAll items
  | [], h => by cases h
  | item :: items, h => by
    rw [partsAll, List.mem_append] at h
    rw [tokensAll, List.mem_append]
    exact h.imp (symbol_of_mem_parts item) (symbol_of_mem_partsAll items)

end

/-- Tokens and items lose nothing. The tokens make up the text; they are grouped exactly if the
parentheses outside of the literals are balanced, and then the items make up the same tokens and the
same text. No parenthesis is left over as a symbol, and the calls are the words directly in front of
an opening parenthesis. -/
theorem grouping_is_lossless (s : Text) :
    ((Token.ofText s).map Token.text).flatten = s ∧
    ((∃ items, ofText? s = some items) ↔ Balanced (outside s)) ∧
    ∀ items, ofText? s = some items →
      tokensAll items = Token.ofText s ∧ renderAll items = s ∧
      (∀ item ∈ partsAll items, item ≠ symbol ['('] ∧ item ≠ symbol [')']) ∧
      ∀ place name, (place, name) ∈ callsAll 0 items ↔
        (Token.ofText s)[place]? = some (.word name) ∧
        (Token.ofText s)[place + 1]? = some .opening := by
  refine ⟨Token.flatten_ofText s, exists_ofText?_iff s, fun items hitems => ?_⟩
  obtain ⟨htokens, harranged⟩ := ofText?_eq_some_iff.mp hitems
  have hsymbol : ∀ x, symbol x ∈ partsAll items → Parenless x := by
    intro x hx
    have hmem := symbol_of_mem_partsAll items hx
    rw [htokens] at hmem
    obtain ⟨front, rest, hscan⟩ := Token.exists_scan_of_mem hmem
    exact Token.scanOperator_parenless (Token.symbol_of_scan hscan)
  refine ⟨htokens, ?_, fun item hitem => ⟨?_, ?_⟩, fun place name => ?_⟩
  · rw [← flatten_tokensAll, htokens, Token.flatten_ofText]
  · rintro rfl
    exact absurd (hsymbol _ hitem) (by decide)
  · rintro rfl
    exact absurd (hsymbol _ hitem) (by decide)
  · rw [← callNames_tokensAll items harranged, htokens, Token.mem_callNames]
    simp

/-- `NOT (f(x) = ')')` -/
def quotedParenItems : List Item :=
  [.word "NOT", .space " ", .group [.call "f" [.word "x"], .space " ", .symbol "=", .space " ",
    .literal "')'"]]

/-- The parenthesis in quotes closes nothing, and the call is the fourth token. -/
theorem quoted_paren_is_lossless :
    ofText? "NOT (f(x) = ')')" = some quotedParenItems ∧
    Balanced (outside "NOT (f(x) = ')')") ∧ renderAll quotedParenItems = "NOT (f(x) = ')')" ∧
    callsAll 0 quotedParenItems = [(3, "f".toList)] ∧
    (Token.ofText "NOT (f(x) = ')')")[3]? = some (.word "f") ∧
    (Token.ofText "NOT (f(x) = ')')")[4]? = some .opening := by
  have hitems : ofText? "NOT (f(x) = ')')" = some quotedParenItems := by
    have htokens : Token.ofText "NOT (f(x) = ')')" = tokensAll quotedParenItems := by
      decide +kernel
    rw [ofText?, htokens]
    rfl
  obtain ⟨-, hbalanced, hall⟩ := grouping_is_lossless "NOT (f(x) = ')')"
  obtain ⟨-, hrender, -, hcalls⟩ := hall _ hitems
  have hcall := (hcalls 3 "f").mp List.mem_cons_self
  exact ⟨hitems, hbalanced.mp ⟨_, hitems⟩, hrender, rfl, hcall.1, hcall.2⟩

end Item
end TwinGraph
