import TwinGraph.Model.Conformance

/-! Which values a schema accepts, said without a word about violations. A value is free of
violations exactly if its schema accepts it. -/
namespace TwinGraph.Schema

inductive Accepts : Schema → Json → Prop where
  | primitive {type : Primitive} {value : Json} (h : type.fault? value = none) :
      Accepts (.primitive type) value
  | enumeration {type : EnumType} {values : List EnumValue} {value : Json}
      (fits : type.admits value = true) (listed : ∃ v ∈ values, v.value.sameValue value = true) :
      Accepts (.enumeration type values) value
  | object {fields : List (Text × Schema)} {entries : List (Text × Json)}
      (known : ∀ entry ∈ entries, ∃ schema, field? entry.1 fields = some schema)
      (accepts : ∀ entry ∈ entries, ∀ schema, field? entry.1 fields = some schema →
        Accepts schema entry.2) :
      Accepts (.object fields) (.object entries)
  | array {element : Schema} {items : List Json} (accepts : ∀ item ∈ items, Accepts element item) :
      Accepts (.array element) (.array items)
  | map {value : Schema} {entries : List (Text × Json)}
      (accepts : ∀ entry ∈ entries, Accepts value entry.2) : Accepts (.map value) (.object entries)

theorem outerViolations_eq_nil {schema : Schema} {value : Json} :
    schema.outerViolations value = [] ↔ schema.outerFault? value = none := by
  unfold outerViolations
  cases schema.outerFault? value <;> simp

/-- Leaves are judged as a whole, and nothing else is accepted where only leaves are expected. -/
theorem outerFault?_eq_none {schema : Schema} {value : Json}
    (hobject : ∀ fields entries, schema = .object fields → value ≠ .object entries)
    (harray : ∀ element items, schema = .array element → value ≠ .array items)
    (hmap : ∀ inner entries, schema = .map inner → value ≠ .object entries) :
    schema.outerFault? value = none ↔ schema.Accepts value := by
  cases schema with
  | primitive type =>
    refine ⟨.primitive, ?_⟩
    rintro ⟨h⟩
    exact h
  | enumeration type values =>
    unfold outerFault?
    dsimp only
    constructor
    · intro h
      split at h
      · next hfits =>
        rw [Bool.and_eq_true, List.any_eq_true] at hfits
        exact .enumeration hfits.1 hfits.2
      · cases h
    · intro h
      cases h with
      | enumeration fits listed =>
        rw [if_pos (Bool.and_eq_true_iff.mpr ⟨fits, List.any_eq_true.mpr listed⟩)]
  | object fields =>
    cases value with
    | object entries => exact absurd rfl (hobject fields entries rfl)
    | _ => exact ⟨nofun, nofun⟩
  | array element =>
    cases value with
    | array items => exact absurd rfl (harray element items rfl)
    | _ => exact ⟨nofun, nofun⟩
  | map inner =>
    cases value with
    | object entries => exact absurd rfl (hmap inner entries rfl)
    | _ => exact ⟨nofun, nofun⟩

mutual

theorem violations_eq_nil (schema : Schema) (value : Json) :
    schema.violations value = [] ↔ schema.Accepts value := by
  match value with
  | .object entries =>
    unfold violations
    cases schema with
    | object fields =>
      refine (fieldViolations_eq_nil fields entries).trans ⟨fun h => ?_, fun h => ?_⟩
      · refine .object (fun entry hm => ?_) fun entry hm schema hs => ?_
        · obtain ⟨schema, hs, -⟩ := h entry hm
          exact ⟨schema, hs⟩
        · obtain ⟨schema', hs', ha⟩ := h entry hm
          rw [hs, Option.some.injEq] at hs'
          exact hs' ▸ ha
      · cases h with
        | object known accepts =>
          intro entry hm
          obtain ⟨schema, hs⟩ := known entry hm
          exact ⟨schema, hs, accepts entry hm schema hs⟩
    | map inner =>
      refine (keyViolations_eq_nil inner entries).trans ⟨.map, fun h => ?_⟩
      cases h with
      | map accepts => exact accepts
    | _ => exact outerViolations_eq_nil.trans (outerFault?_eq_none nofun nofun nofun)
  | .array items =>
    unfold violations
    cases schema with
    | array element =>
      refine (elementViolations_eq_nil element 0 items).trans ⟨.array, fun h => ?_⟩
      cases h with
      | array accepts => exact accepts
    | _ => exact outerViolations_eq_nil.trans (outerFault?_eq_none nofun nofun nofun)
  | .null | .bool _ | .number _ | .string _ =>
    unfold violations
    exact outerViolations_eq_nil.trans (outerFault?_eq_none nofun nofun nofun)

theorem fieldViolations_eq_nil (fields : List (Text × Schema)) (entries : List (Text × Json)) :
    fieldViolations fields entries = [] ↔ ∀ entry ∈ entries, ∃ schema,
      field? entry.1 fields = some schema ∧ schema.Accepts entry.2 := by
  match entries with
  | [] => simp [fieldViolations]
  | (name, value) :: entries =>
    unfold fieldViolations
    rw [List.append_eq_nil_iff, fieldViolations_eq_nil fields entries, List.forall_mem_cons]
    refine and_congr_left fun _ => ?_
    cases hs : field? name fields with
    | none => simp
    | some schema => simp [violations_eq_nil schema value]

theorem elementViolations_eq_nil (element : Schema) (index : Nat) (items : List Json) :
    elementViolations element index items = [] ↔ ∀ item ∈ items, element.Accepts item := by
  match items with
  | [] => simp [elementViolations]
  | item :: items =>
    unfold elementViolations
    rw [List.append_eq_nil_iff, elementViolations_eq_nil element (index + 1) items,
      List.forall_mem_cons, List.map_eq_nil_iff, violations_eq_nil element item]

theorem keyViolations_eq_nil (schema : Schema) (entries : List (Text × Json)) :
    keyViolations schema entries = [] ↔ ∀ entry ∈ entries, schema.Accepts entry.2 := by
  match entries with
  | [] => simp [keyViolations]
  | (key, value) :: entries =>
    unfold keyViolations
    rw [List.append_eq_nil_iff, keyViolations_eq_nil schema entries, List.forall_mem_cons,
      List.map_eq_nil_iff, violations_eq_nil schema value]

end

end TwinGraph.Schema
