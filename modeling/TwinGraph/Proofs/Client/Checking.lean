import TwinGraph.Client.Twins
import TwinGraph.Proofs.Json.RoundTrip
import TwinGraph.Proofs.Model.Accepting

/-! The checks of a twin, and what is written of it. A twin is checked for its id, for its model and
for every property of its own; written, it has its id and a tag, and is otherwise the same. -/
namespace TwinGraph

namespace Json

theorem WellFormed.put {fields : Fields Json} {value : Json} (h : (object fields).WellFormed)
    (hvalue : value.WellFormed) (name : Text) : (object (Fields.put name value fields)).WellFormed :=
  ⟨Fields.nodup_put h.1 name value, wellFormedFields_iff.mpr fun entry hm => by
    rcases Fields.mem_put hm with rfl | hm
    · exact hvalue
    · exact wellFormedFields_iff.mp h.2 entry hm⟩

theorem wellFormed_string (text : Text) : (string text).WellFormed := trivial

theorem nestingFields_le {fields : List (Text × Json)} {n : Nat} :
    nestingFields fields ≤ n ↔ ∀ field ∈ fields, field.2.nesting ≤ n := by
  induction fields with
  | nil => simp [nestingFields]
  | cons field fields ih =>
    obtain ⟨name, value⟩ := field
    rw [nestingFields, Nat.max_le, ih, List.forall_mem_cons]

theorem nesting_put (name text : Text) (fields : Fields Json) :
    (object (Fields.put name (string text) fields)).nesting ≤ (object fields).nesting := by
  refine Nat.succ_le_succ (nestingFields_le.mpr fun entry hm => ?_)
  rcases Fields.mem_put hm with rfl | hm
  · exact Nat.zero_le _
  · exact nestingFields_le.mp (Nat.le_refl _) entry hm

end Json

namespace Twin

theorem checkId_eq_ok {id : Text} {twin : Fields Json} {u : Unit} :
    checkId id twin = .ok u ↔
      ∀ given, Fields.find? idKey twin = some given → given = .string id := by
  unfold checkId
  split
  · next hnone => simp [hnone]
  · next given hsome =>
    rw [hsome]
    split
    · next h => simp [h]
    · next h => simp [h]

theorem modelId_eq_ok {twin : Fields Json} {model : Text} :
    modelId twin = .ok model ↔ ∃ metadata, Fields.find? metadataKey twin = some (.object metadata) ∧
      Fields.find? modelKey metadata = some (.string model) ∧ model ≠ [] := by
  unfold modelId
  split
  · next metadata hmetadata =>
    rw [hmetadata]
    split
    · next name hname =>
      constructor
      · intro h
        split at h
        · cases h
        · next hne =>
          cases h
          exact ⟨metadata, rfl, hname, by simpa using hne⟩
      · rintro ⟨metadata', hmetadata', hmodel, hne⟩
        cases hmetadata'
        rw [hname] at hmodel
        cases hmodel
        rw [if_neg (by simpa using hne)]
    · next hother =>
      refine ⟨nofun, ?_⟩
      rintro ⟨metadata', hmetadata', hmodel, -⟩
      cases hmetadata'
      exact absurd hmodel (hother model)
  · next hother =>
    refine ⟨nofun, ?_⟩
    rintro ⟨metadata, hmetadata, -⟩
    exact absurd hmetadata (hother metadata)

/-- The property of a twin is one of its model, with a schema that accepts the value. -/
def Conforms (interface : Interface) (name : Text) (value : Json) : Prop :=
  ∃ content schema writable, interface.contents.find? name = some content ∧
    content.kind = .property schema writable ∧ schema.Accepts value

theorem propertyViolations_eq_nil {interface : Interface} {name : Text} {value : Json} :
    propertyViolations interface name value = [] ↔ Conforms interface name value := by
  unfold propertyViolations
  split
  · next hnone =>
    refine ⟨nofun, ?_⟩
    rintro ⟨content, _, _, hfind, -⟩
    rw [hnone] at hfind
    cases hfind
  · next content hfind =>
    cases hkind : content.kind with
    | property schema writable =>
      have hproperty : content.isProperty = true := by rw [Content.isProperty, hkind]
      rw [if_pos hproperty, List.map_eq_nil_iff, Content.violations, hkind]
      refine (Schema.violations_eq_nil schema value).trans ⟨fun h => ?_, ?_⟩
      · exact ⟨content, schema, writable, hfind, hkind, h⟩
      · rintro ⟨content', schema', writable', hfind', hkind', h⟩
        rw [hfind, Option.some.injEq] at hfind'
        subst hfind'
        rw [hkind] at hkind'
        cases hkind'
        exact h
    | _ =>
      have hother : content.isProperty = false := by rw [Content.isProperty, hkind]
      rw [if_neg (by rw [hother]; decide)]
      refine ⟨nofun, ?_⟩
      rintro ⟨content', schema', writable', hfind', hkind', -⟩
      rw [hfind, Option.some.injEq] at hfind'
      subst hfind'
      rw [hkind] at hkind'
      cases hkind'

theorem violations_eq_nil {interface : Interface} {twin : Fields Json} :
    violations interface twin = [] ↔ ∀ entry ∈ twin, isSystemKey entry.1 = false →
      Conforms interface entry.1 entry.2 := by
  unfold violations
  rw [List.flatMap_eq_nil_iff]
  constructor
  · intro h entry hm hsystem
    have hkept : (!isSystemKey entry.1) = true := by rw [hsystem]; rfl
    exact propertyViolations_eq_nil.mp (h entry (List.mem_filter.mpr ⟨hm, hkept⟩))
  · intro h entry hm
    obtain ⟨hm, hsystem⟩ := List.mem_filter.mp hm
    exact propertyViolations_eq_nil.mpr (h entry hm (by simpa using hsystem))

/-- What was handed in, under its id and with the tag, and with every other field as it was. -/
structure Stamps (id tag : Text) (twin written : Fields Json) : Prop where
  wellFormed : (Json.object written).WellFormed
  id : Fields.find? idKey written = some (.string id)
  tag : Fields.find? tagKey written = some (.string tag)
  others : ∀ name, name ≠ idKey → name ≠ tagKey →
    Fields.find? name written = Fields.find? name twin

def stampedFields (id tag : Text) (twin : Fields Json) : Fields Json :=
  Fields.put tagKey (.string tag) (Fields.put idKey (.string id) twin)

theorem stamped_eq (id tag : Text) (twin : Fields Json) :
    stamped id tag twin = .object (stampedFields id tag twin) := rfl

theorem stamps_stampedFields {twin : Fields Json} (h : (Json.object twin).WellFormed)
    (id tag : Text) : Stamps id tag twin (stampedFields id tag twin) where
  wellFormed := (h.put (Json.wellFormed_string id) idKey).put (Json.wellFormed_string tag) tagKey
  id := by
    rw [stampedFields, Fields.find?_put_of_ne (by decide), Fields.find?_put_self]
  tag := Fields.find?_put_self _ _ _
  others name hid htag := by
    rw [stampedFields, Fields.find?_put_of_ne htag, Fields.find?_put_of_ne hid]

theorem nesting_stamped (id tag : Text) (twin : Fields Json) :
    (stamped id tag twin).nesting ≤ (Json.object twin).nesting :=
  (Json.nesting_put tagKey tag _).trans (Json.nesting_put idKey id twin)

theorem read_stamped {twin : Fields Json} (h : (Json.object twin).WellFormed) (id tag : Text) :
    ∃ written, Stamps id tag twin written ∧ ∀ depth, (Json.object twin).nesting ≤ depth →
      Json.read depth (stamped id tag twin).render = some (.object written) := by
  have hstamps := stamps_stampedFields h id tag
  exact ⟨_, hstamps, fun depth hdepth =>
    Json.read_render hstamps.wellFormed ((nesting_stamped id tag twin).trans hdepth)⟩

end Twin
end TwinGraph
