import TwinGraph.Proofs.Query.Parts
import TwinGraph.Proofs.Query.Scanned

/-! The tokens that items are made of. Grouping the tokens of a text loses none of them. -/
namespace TwinGraph

open Query Scan

namespace Item

mutual

def tokens : Item → List Token
  | word s => [.word s]
  | literal s => [.literal s]
  | space s => [.space s]
  | symbol s => [.symbol s]
  | call name args => .word name :: .opening :: (tokensAll args ++ [.closing])
  | group items => .opening :: (tokensAll items ++ [.closing])

def tokensAll : List Item → List Token
  | [] => []
  | item :: items => item.tokens ++ tokensAll items

end

theorem tokensAll_eq_flatMap (items : List Item) : tokensAll items = items.flatMap tokens := by
  induction items with
  | nil => rw [tokensAll, List.flatMap_nil]
  | cons item items ih => rw [tokensAll, ih, List.flatMap_cons]

theorem tokensAll_append (items items' : List Item) :
    tokensAll (items ++ items') = tokensAll items ++ tokensAll items' := by
  simp only [tokensAll_eq_flatMap, List.flatMap_append]

theorem tokensAll_reverse_cons (item : Item) (items : List Item) :
    tokensAll (item :: items).reverse = tokensAll items.reverse ++ item.tokens := by
  simp only [tokensAll_eq_flatMap, List.reverse_cons, List.flatMap_append, List.flatMap_cons,
    List.flatMap_nil, List.append_nil]

/-- What stands in front of the innermost open parenthesis, with the parenthesis. -/
def openTokens : List Frame → List Token
  | [] => []
  | f :: frames => openTokens frames ++ (tokensAll f.before.reverse ++
      ((f.name.map Token.word).toList ++ [.opening]))

theorem tokens_after (items : List Item) : tokensAll (Frame.after items).before.reverse ++
    ((Frame.after items).name.map Token.word).toList = tokensAll items.reverse := by
  unfold Frame.after
  split
  · next w before =>
    rw [tokensAll_reverse_cons, tokens]
    rfl
  · exact List.append_nil _

theorem tokens_close (f : Frame) (inner : List Item) :
    (f.close inner).tokens = (f.name.map Token.word).toList ++
      (.opening :: (tokensAll inner ++ [.closing])) := by
  unfold Frame.close
  split
  · next name heq =>
    rw [heq, tokens]
    rfl
  · next heq =>
    rw [heq, tokens]
    rfl

theorem tokens_assemble {frames : List Frame} {items out : List Item} {ts : List Token}
    (h : assemble frames items ts = some out) :
    tokensAll out = openTokens frames ++ (tokensAll items.reverse ++ ts) := by
  fun_induction assemble frames items ts with
  | case1 items =>
    cases h
    rw [openTokens, List.nil_append, List.append_nil]
  | case2 | case4 => cases h
  | case3 frames items rest ih =>
    rw [ih h, openTokens, ← tokens_after items]
    simp [tokensAll]
  | case5 frame frames items rest ih =>
    rw [ih h, tokensAll_reverse_cons, tokens_close, openTokens]
    simp
  | case6 frames items s rest ih | case7 frames items s rest ih | case8 frames items s rest ih
  | case9 frames items s rest ih =>
    rw [ih h, tokensAll_reverse_cons, tokens, List.append_assoc, List.singleton_append]

theorem tokensAll_ofText? {s : Text} {items : List Item} (h : ofText? s = some items) :
    tokensAll items = Token.ofText s := by
  rw [tokens_assemble h]
  simp [openTokens, tokensAll]

mutual

theorem flatten_tokens : (item : Item) → (item.tokens.map Token.text).flatten = item.render
  | word s | literal s | space s | symbol s => by simp [tokens, render, Token.text]
  | call name args => by
    simp only [tokens, render, List.map_cons, List.map_append, List.flatten_cons,
      List.flatten_append, flatten_tokensAll args]
    simp [Token.text]
  | group items => by
    simp only [tokens, render, List.map_cons, List.map_append, List.flatten_cons,
      List.flatten_append, flatten_tokensAll items]
    simp [Token.text]

theorem flatten_tokensAll : (items : List Item) →
    ((tokensAll items).map Token.text).flatten = renderAll items
  | [] => by rw [tokensAll, renderAll, List.map_nil, List.flatten_nil]
  | item :: items => by
    rw [tokensAll, renderAll, List.map_append, List.flatten_append, flatten_tokens item,
      flatten_tokensAll items]

end

end Item

/-! ### Words -/

/-- A name, perhaps with dollar signs in front. -/
def IsSegment (s : Text) : Prop :=
  ∃ dollars name, s = dollars ++ name ∧ (∀ c ∈ dollars, c = '$') ∧ isIdentifier name = true

theorem IsSegment.not_point {s : Text} (h : IsSegment s) : ∀ c ∈ s, (c == '.') = false := by
  obtain ⟨dollars, name, rfl, hdollars, hname⟩ := h
  rw [List.forall_mem_append]
  refine ⟨fun c hc => by rw [hdollars c hc]; decide, fun c hc => ?_⟩
  have hchar := isNameChar_of_mem hname c hc
  refine Bool.eq_false_iff.mpr fun hpoint => ?_
  rw [beq_iff_eq.mp hpoint] at hchar
  exact absurd hchar (by decide)

namespace Token

theorem finds_scanSegment : Finds IsSegment scanSegment := by
  intro s segment rest h
  simp only [scanSegment, Option.bind_eq_bind, Option.bind_eq_some_iff, Option.some.injEq,
    Prod.mk.injEq] at h
  obtain ⟨⟨name, s'⟩, hname, rfl, rfl⟩ := h
  refine ⟨_, name, rfl, fun c hc => ?_, finds_scanName _ _ _ hname⟩
  exact beq_iff_eq.mp (List.all_eq_true.mp List.all_takeWhile c hc)

theorem finds_scanPath :
    Finds (fun path => ∀ piece ∈ Text.pieces (· == '.') path, IsSegment piece) scanPath := by
  intro s path rest h
  rw [scanPath_eq] at h
  simp only [Option.bind_eq_bind, Option.bind_eq_some_iff, Option.some.injEq,
    Prod.mk.injEq] at h
  obtain ⟨⟨first, s'⟩, hfirst, rfl, rfl⟩ := h
  have hstep : Finds (fun step => ∃ segment, step = '.' :: segment ∧ IsSegment segment)
      scanStep := by
    intro s step rest h
    simp only [scanStep, Option.bind_eq_bind, Option.bind_eq_some_iff, Option.some.injEq,
      Prod.mk.injEq] at h
    obtain ⟨s₁, -, ⟨segment, s₂⟩, hsegment, rfl, rfl⟩ := h
    exact ⟨segment, rfl, finds_scanSegment _ _ _ hsegment⟩
  have hall : ∀ (steps : List Text) (word : Text),
      (∀ step ∈ steps, ∃ segment, step = '.' :: segment ∧ IsSegment segment) →
      (∀ piece ∈ word.pieces (· == '.'), IsSegment piece) →
      ∀ piece ∈ Text.pieces (· == '.') (word ++ steps.flatten), IsSegment piece := by
    intro steps
    induction steps with
    | nil => exact fun word _ hword => by simpa using hword
    | cons step steps ih =>
      intro word hsteps hword
      rw [List.forall_mem_cons] at hsteps
      obtain ⟨⟨segment, rfl, hsegment⟩, hsteps⟩ := hsteps
      rw [List.flatten_cons, ← List.append_assoc]
      refine ih _ hsteps ?_
      rw [pieces_append (by decide), pieces_plain hsegment.not_point, List.forall_mem_append,
        List.forall_mem_singleton]
      exact ⟨hword, hsegment⟩
  have hfirst := finds_scanSegment _ _ _ hfirst
  refine hall _ first (hstep.many s') ?_
  rw [pieces_plain hfirst.not_point, List.forall_mem_singleton]
  exact hfirst

theorem segments_of_mem_ofText {s w : Text} (h : word w ∈ ofText s) :
    ∀ piece ∈ w.pieces (· == '.'), IsSegment piece := by
  obtain ⟨front, rest, hscan⟩ := exists_scan_of_mem h
  exact finds_scanPath _ _ _ (scanPath_of_scan hscan)

end Token
end TwinGraph
