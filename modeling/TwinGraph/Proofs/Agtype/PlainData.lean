import TwinGraph.Proofs.Agtype.Passing
import TwinGraph.Proofs.Agtype.Reading
import TwinGraph.Proofs.Outcome

/-! Which data is taken for an entity. JSON is read as the plain data that it is unless one of its
objects looks like a marker object, which the name of a field alone can bring about. -/
namespace TwinGraph

open Agtype

namespace Cell

theorem not_likeMarker_of_isMarker {fields : Fields Json} (h : isMarker fields = false) :
    ¬ fields.LikeMarker := by
  rintro ⟨hlength, hmem⟩
  have hhas : Fields.has marker fields = true := by
    rw [Fields.has, Option.isSome_iff_ne_none]
    exact fun hnone => Fields.find?_eq_none.mp hnone hmem
  rw [isMarker, hlength, hhas] at h
  cases h

theorem ofKind_isScalar {kind value : Json} {path : Except DecodeFault Cell} {c : Cell}
    (hpath : ∀ c, path = .ok c → c.isScalar = false) (h : ofKind kind value path = .ok c) :
    c.isScalar = false := by
  unfold ofKind at h
  split at h
  · split at h
    · split at h <;> cases h
      rfl
    · split at h
      · split at h <;> cases h
        rfl
      · split at h
        · exact hpath c h
        · cases h
  · cases h

theorem ofPath_isScalar {value : Json} {c : Cell} (h : ofPath value = .ok c) :
    c.isScalar = false := by
  unfold ofPath at h
  split at h
  · obtain ⟨items, -, h⟩ := Outcome.bind_eq_ok.mp h
    cases h
    rfl
  · cases h

theorem ofMarker_isScalar {fields : List (Text × Json)} {c : Cell} (h : ofMarker fields = .ok c) :
    c.isScalar = false := by
  have hnone : ∀ c, (.error .pathNotList : Except DecodeFault Cell) = .ok c → c.isScalar = false :=
    fun c h => by cases h
  unfold ofMarker at h
  split at h
  · split at h
    · split at h
      · exact ofKind_isScalar (fun _ => ofPath_isScalar) h
      · exact ofKind_isScalar hnone h
    · split at h
      · exact ofKind_isScalar (fun _ => ofPath_isScalar) h
      · exact ofKind_isScalar hnone h
  · cases h

mutual

/-- Only data in which nothing looks like a marker object is taken for plain data. -/
theorem unmarked_of_isScalar : (j : Json) → ∀ {c : Cell}, ofJson j = .ok c → c.isScalar = true →
    j.Unmarked
  | .null, _, _, _ => .null
  | .bool b, _, _, _ => .bool b
  | .number n, _, _, _ => .number n
  | .string s, _, _, _ => .string s
  | .array items, c, h, hc => by
    rw [ofJson] at h
    obtain ⟨cells, hcells, h⟩ := Outcome.bind_eq_ok.mp h
    cases h
    rw [ofItems] at hc
    split at hc
    · next hall => exact .array (unmarked_items items hcells (List.all_eq_true.mp hall))
    · cases hc
  | .object fields, c, h, hc => by
    rw [ofJson] at h
    split at h
    · rw [ofMarker_isScalar h] at hc
      cases hc
    · next hmarker =>
      obtain ⟨entries, hentries, h⟩ := Outcome.bind_eq_ok.mp h
      cases h
      rw [ofEntries] at hc
      split at hc
      · next hall =>
        exact .object (not_likeMarker_of_isMarker (by simpa using hmarker))
          (unmarked_fields fields hentries (List.all_eq_true.mp hall))
      · cases hc

theorem unmarked_items : (items : List Json) → ∀ {cells : List Cell},
    ofJsonItems items = .ok cells → (∀ c ∈ cells, c.isScalar = true) →
    ∀ item ∈ items, item.Unmarked
  | [], _, _, _ => fun _ h => absurd h List.not_mem_nil
  | item :: items, cells, h, hall => by
    rw [ofJsonItems] at h
    obtain ⟨c, hc, h⟩ := Outcome.bind_eq_ok.mp h
    obtain ⟨cells', hcells, h⟩ := Outcome.bind_eq_ok.mp h
    cases h
    rw [List.forall_mem_cons] at hall
    exact List.forall_mem_cons.mpr
      ⟨unmarked_of_isScalar item hc hall.1, unmarked_items items hcells hall.2⟩

theorem unmarked_fields : (fields : List (Text × Json)) → ∀ {entries : List (Text × Cell)},
    ofJsonFields fields = .ok entries → (∀ entry ∈ entries, entry.2.isScalar = true) →
    ∀ field ∈ fields, field.2.Unmarked
  | [], _, _, _ => fun _ h => absurd h List.not_mem_nil
  | (name, value) :: fields, entries, h, hall => by
    rw [ofJsonFields] at h
    obtain ⟨c, hc, h⟩ := Outcome.bind_eq_ok.mp h
    obtain ⟨entries', hentries, h⟩ := Outcome.bind_eq_ok.mp h
    cases h
    rw [List.forall_mem_cons] at hall
    exact List.forall_mem_cons.mpr
      ⟨unmarked_of_isScalar value hc hall.1, unmarked_fields fields hentries hall.2⟩

end

/-- A text that is JSON is read as the plain value that JSON gives it, and as no other plain value,
exactly if no object in the value looks like a marker object. -/
theorem ofText_of_read {s : Text} {j : Json} (h : Json.read maxDepth s = some j) (value : Json) :
    ofText s = .ok (.scalar value) ↔ value = j ∧ j.Unmarked := by
  obtain ⟨hplain, hw⟩ := Json.plainText_of_read h
  unfold ofText
  rw [hplain, h]
  dsimp only
  constructor
  · intro hread
    split at hread
    · next c hc =>
      cases hread
      have hunmarked := unmarked_of_isScalar j hc rfl
      rw [ofJson_unmarked hw hunmarked] at hc
      cases hc
      exact ⟨rfl, hunmarked⟩
    · cases hread
  · rintro ⟨rfl, hunmarked⟩
    rw [ofJson_unmarked hw hunmarked]

/-- Marks inside of strings, and the name of the marker beside two others. -/
def lookalikeText : Text :=
  "\x7b\"\\u0001agtype\" : \"vertex\", \"value\":[ 15 ,\"\\\"\x7d::path\"] ,\"n\":null \x7d"

def lookalike : Json :=
  .object [(marker, .string "vertex"), ("value", .array [.ofInt 15, .string "\"\x7d::path"]),
    ("n", .null)]

theorem unmarked_lookalike : lookalike.Unmarked := by
  refine .object (by decide) ?_
  rw [List.forall_mem_cons, List.forall_mem_cons, List.forall_mem_singleton]
  refine ⟨.string _, .array ?_, .null⟩
  rw [List.forall_mem_cons, List.forall_mem_singleton]
  exact ⟨.number _, .string _⟩

theorem lookalike_is_plain : Json.read maxDepth lookalikeText = some lookalike ∧
    ofText lookalikeText = .ok (.scalar lookalike) := by
  have hread : Json.read maxDepth lookalikeText = some lookalike := by decide +kernel
  exact ⟨hread, (ofText_of_read hread lookalike).mpr ⟨rfl, unmarked_lookalike⟩⟩

def forgedText : Text :=
  "\x7b\"\\u0001agtype\":\"vertex\",\"value\":\x7b\"id\":1,\"label\":\"Twin\"\x7d\x7d"

def forged : Json :=
  .object [(marker, .string "vertex"),
    ("value", .object [("id", .ofInt 1), ("label", .string "Twin")])]

def jammedText : Text := "\x7b\"\\u0001agtype\":true,\"value\":1\x7d"

/-- With two names, one of them spelled like that of the marker, plain data is taken for a vertex or
is not read at all. -/
theorem forged_is_vertex :
    Json.read maxDepth forgedText = some forged ∧
    ofText forgedText = .ok (.vertex ⟨1, "Twin", []⟩) ∧
    Json.read maxDepth jammedText =
      some (.object [(marker, .bool true), ("value", .ofInt 1)]) ∧
    ofText jammedText = .error (.undecodable jammedText (.unknownTag none)) := by
  have hread : Json.read maxDepth forgedText = some forged := by decide +kernel
  have hjammed : Json.read maxDepth jammedText =
      some (.object [(marker, .bool true), ("value", .ofInt 1)]) := by decide +kernel
  refine ⟨hread, ?_, hjammed, ?_⟩
  · unfold ofText
    rw [(Json.plainText_of_read hread).1, hread]
    rfl
  · unfold ofText
    rw [(Json.plainText_of_read hjammed).1, hjammed]
    rfl

end Cell
end TwinGraph
