import TwinGraph.Agtype.Decoding
import TwinGraph.Proofs.Agtype.Grouping

/-! How the store prints a cell, and what is left of that text without its annotations: the text of
a JSON value in which a marker object stands for each entity. -/
namespace TwinGraph

open Agtype Agtype.Unwrapping
open Json (Bracketed Named Listed Spaced Written)

def Json.ofInt (n : Int) : Json := if h : Number.Fits n then .number (.whole n h) else .null

def Vertex.body (v : Vertex) : Fields Json :=
  [("id", .ofInt v.id), ("label", .string v.label), ("properties", .object v.properties)]

def Edge.body (e : Edge) : Fields Json :=
  [("id", .ofInt e.id), ("label", .string e.label), ("end_id", .ofInt e.endId),
    ("start_id", .ofInt e.startId), ("properties", .object e.properties)]

namespace Cell

/-- The texts of a cell: those of JSON, with an annotation behind each entity. -/
inductive Printed : Cell → Text → Prop where
  | scalar {j s} : Written Numeric j s → Printed (scalar j) s
  | vertex {v s} : Written Numeric (.object v.body) s →
      Printed (vertex v) (s ++ "::vertex".toList)
  | edge {e s} : Written Numeric (.object e.body) s → Printed (edge e) (s ++ "::edge".toList)
  | path {items s} : Bracketed Printed '[' ']' items s → Printed (path items) (s ++ "::path".toList)
  | list {items s} : Bracketed Printed '[' ']' items s → Printed (list items) s
  | map {entries s} : Bracketed (Named Printed) '{' '}' entries s → Printed (map entries) s

def wrapped (word : Text) (j : Json) : Json := .object [(marker, .string word), ("value", j)]

mutual

/-- The cell as JSON, each entity inside a marker object. -/
def marked : Cell → Json
  | scalar j => j
  | vertex v => wrapped vertexWord (.object v.body)
  | edge e => wrapped edgeWord (.object e.body)
  | path items => wrapped pathWord (.array (markedItems items))
  | list items => .array (markedItems items)
  | map entries => .object (markedEntries entries)

def markedItems : List Cell → List Json
  | [] => []
  | item :: items => item.marked :: markedItems items

def markedEntries : List (Text × Cell) → List (Text × Json)
  | [] => []
  | (name, value) :: entries => (name, value.marked) :: markedEntries entries

end

theorem markedItems_eq_map (items : List Cell) : markedItems items = items.map marked := by
  induction items with
  | nil => rfl
  | cons item items ih => rw [markedItems, ih, List.map_cons]

theorem markedEntries_eq_map (entries : List (Text × Cell)) :
    markedEntries entries = entries.map fun entry => (entry.1, entry.2.marked) := by
  induction entries with
  | nil => rfl
  | cons entry entries ih => rw [markedEntries, ih, List.map_cons]

theorem spaced_wrapped {word : Text}
    (hword : word = vertexWord ∨ word = edgeWord ∨ word = pathWord) {j : Json} {t : Text}
    (ht : Spaced j t) :
    Spaced (wrapped word j) (Unwrapping.wrapping word ++ t ++ ['\x7d']) := by
  have hkind : Named Spaced (marker, .string word)
      (Json.renderString marker ++ ':' :: [] ++ Json.renderString word) :=
    .field Json.gap_nil (.string word)
  have hvalue : Named Spaced ("value".toList, j) (Json.renderString "value" ++ ':' :: [] ++ t) :=
    .field Json.gap_nil ht
  have h := Written.object (.cons hkind (.cons Json.gap_nil hvalue .nil))
  have hfront : Unwrapping.wrapping word = '\x7b' :: Json.renderString marker ++
      ':' :: Json.renderString word ++ ',' :: Json.renderString "value" ++ [':'] := by
    rcases hword with rfl | rfl | rfl <;> decide
  rw [hfront]
  unfold wrapped
  simpa using h

def MarkedText (v : Cell) (t : Text) : Prop := Spaced v.marked t

theorem bracketed_marked {items : List Cell} {t : Text} (h : Bracketed MarkedText '[' ']' items t) :
    Spaced (.array (markedItems items)) t := by
  rw [markedItems_eq_map]
  exact .array (h.map (f := marked) fun _ _ hitem => hitem)

theorem bracketed_markedEntries {entries : List (Text × Cell)} {t : Text}
    (h : Bracketed (Named MarkedText) '{' '}' entries t) :
    Spaced (.object (markedEntries entries)) t := by
  rw [markedEntries_eq_map]
  refine .object (h.map fun entry t hentry => ?_)
  cases hentry with
  | field hgap hvalue => exact .field hgap hvalue

mutual

/-- Whatever a cell is made of, its text comes out as a text of its marked form. -/
theorem printed_unwraps : (v : Cell) → Unwraps Printed MarkedText v
  | scalar j => by
    rintro s ⟨hs⟩
    exact written_unwraps j s hs
  | vertex v => by
    intro s hs
    cases hs with
    | vertex hs =>
      obtain ⟨t, ht, hclosed⟩ := object_closes (fields_unwrap _) hs
      exact ⟨_, spaced_wrapped (Or.inl rfl) ht, hclosed.wraps (Or.inl rfl)⟩
  | edge e => by
    intro s hs
    cases hs with
    | edge hs =>
      obtain ⟨t, ht, hclosed⟩ := object_closes (fields_unwrap _) hs
      exact ⟨_, spaced_wrapped (Or.inr (Or.inl rfl)) ht, hclosed.wraps (Or.inr (Or.inl rfl))⟩
  | path items => by
    intro s hs
    cases hs with
    | path hs =>
      obtain ⟨t, ht, hclosed⟩ :=
        bracketed_unwraps (Or.inl rfl) (Or.inl rfl) (printed_unwrapItems items) hs
      exact ⟨_, spaced_wrapped (Or.inr (Or.inr rfl)) (bracketed_marked ht),
        hclosed.wraps (Or.inr (Or.inr rfl))⟩
  | list items => by
    intro s hs
    cases hs with
    | list hs =>
      obtain ⟨t, ht, hclosed⟩ :=
        bracketed_unwraps (Or.inl rfl) (Or.inl rfl) (printed_unwrapItems items) hs
      exact ⟨t, bracketed_marked ht, hclosed.yields⟩
  | map entries => by
    intro s hs
    cases hs with
    | map hs =>
      obtain ⟨t, ht, hclosed⟩ :=
        bracketed_unwraps (Or.inr rfl) (Or.inr rfl) (printed_unwrapEntries entries) hs
      exact ⟨t, bracketed_markedEntries ht, hclosed.yields⟩

theorem printed_unwrapItems : (items : List Cell) →
    ∀ item ∈ items, Unwraps Printed MarkedText item
  | [] => fun _ h => absurd h List.not_mem_nil
  | item :: items => List.forall_mem_cons.mpr ⟨printed_unwraps item, printed_unwrapItems items⟩

theorem printed_unwrapEntries : (entries : List (Text × Cell)) →
    ∀ entry ∈ entries, Unwraps (Named Printed) (Named MarkedText) entry
  | [] => fun _ h => absurd h List.not_mem_nil
  | (_, value) :: entries =>
    List.forall_mem_cons.mpr
      ⟨named_unwraps (printed_unwraps value), printed_unwrapEntries entries⟩

end

end Cell
end TwinGraph
