import TwinGraph.Proofs.Model.Accepting
import Mathlib.Data.List.Lex

/-! Everything that is wrong with a value. An offence has a place in the value and steps that lead
there, and a value has one violation for each offence, in the order of their places. -/
namespace TwinGraph

namespace Primitive

def Admits (type : Primitive) (value : Json) : Prop :=
  match type with
  | boolean => ∃ b, value = .bool b
  | integer => ∃ n fits, value = .number (.whole n fits) ∧ -0x80000000 ≤ n ∧ n < 0x80000000
  | long => ∃ n fits, value = .number (.whole n fits) ∧ n < 0x8000000000000000
  | double | float => ∃ n, value = .number n
  | string => ∃ s, value = .string s
  | date => ∃ s, value = .string s ∧ Temporal.isDate s = true
  | dateTime => ∃ s, value = .string s ∧ Temporal.isDateTime s = true
  | time => ∃ s, value = .string s ∧ Temporal.isTime s = true
  | duration => ∃ s, value = .string s ∧ Temporal.isDuration s = true

theorem ite_none_eq_none {p : Prop} [Decidable p] {fault : Text} :
    (if p then none else some fault) = none ↔ p := by
  by_cases h : p <;> simp [h]

theorem signed64?_eq_some {value : Json} {n : Int} : value.signed64? = some n ↔
    ∃ fits, value = .number (.whole n fits) ∧ n < 0x8000000000000000 := by
  constructor
  · intro h
    cases value with
    | number m =>
      cases m with
      | whole m fits =>
        rw [Json.signed64?, Number.signed64?] at h
        split at h
        · next high =>
          cases h
          exact ⟨fits, rfl, high⟩
        · cases h
      | float x => cases h
    | _ => cases h
  · rintro ⟨fits, rfl, high⟩
    exact if_pos high

theorem isNumber_iff {value : Json} : value.isNumber = true ↔ ∃ n, value = .number n := by
  cases value <;> simp [Json.isNumber]

theorem textual_eq_none {value : Json} {valid : Text → Bool} {fault : Text} :
    (match value with
      | .string s => if valid s then none else some fault
      | _ => some fault) = none ↔ ∃ s, value = .string s ∧ valid s = true := by
  cases value with
  | string s =>
    refine ite_none_eq_none.trans ⟨fun h => ⟨s, rfl, h⟩, ?_⟩
    rintro ⟨t, ht, h⟩
    cases ht
    exact h
  | _ => simp

theorem fault?_eq_none {type : Primitive} {value : Json} :
    type.fault? value = none ↔ type.Admits value := by
  unfold fault? Admits
  cases type with
  | boolean =>
    rw [ite_none_eq_none]
    cases value <;> simp [Json.bool?]
  | integer =>
    dsimp only
    constructor
    · intro h
      split at h
      · cases h
      · next n hn =>
        obtain ⟨fits, hvalue, -⟩ := signed64?_eq_some.mp hn
        exact ⟨n, fits, hvalue, ite_none_eq_none.mp h⟩
    · rintro ⟨n, fits, hvalue, hrange⟩
      have hn : value.signed64? = some n := signed64?_eq_some.mpr ⟨fits, hvalue, by omega⟩
      rw [hn]
      exact if_pos hrange
  | long =>
    rw [ite_none_eq_none, Option.isSome_iff_exists]
    exact exists_congr fun n => signed64?_eq_some
  | double => exact ite_none_eq_none.trans isNumber_iff
  | float => exact ite_none_eq_none.trans isNumber_iff
  | string =>
    rw [ite_none_eq_none]
    cases value <;> simp [Json.string?]
  | date => exact textual_eq_none
  | dateTime => exact textual_eq_none
  | time => exact textual_eq_none
  | duration => exact textual_eq_none

end Primitive

namespace Schema

/-- Seen from outside, the value is one for the schema. -/
inductive Fits : Schema → Json → Prop where
  | primitive {type : Primitive} {value : Json} (h : type.Admits value) :
      Fits (.primitive type) value
  | enumeration {type : EnumType} {values : List EnumValue} {value : Json}
      (typed : type.admits value = true) (listed : ∃ v ∈ values, v.value.sameValue value = true) :
      Fits (.enumeration type values) value
  | object (fields : List (Text × Schema)) (entries : List (Text × Json)) :
      Fits (.object fields) (.object entries)
  | array (element : Schema) (items : List Json) : Fits (.array element) (.array items)
  | map (value : Schema) (entries : List (Text × Json)) : Fits (.map value) (.object entries)

theorem fits_iff {schema : Schema} {value : Json} :
    schema.Fits value ↔ schema.outerFault? value = none := by
  constructor
  · intro h
    cases h with
    | primitive h => exact Primitive.fault?_eq_none.mpr h
    | enumeration typed listed =>
      exact if_pos (Bool.and_eq_true_iff.mpr ⟨typed, List.any_eq_true.mpr listed⟩)
    | _ => rfl
  · intro h
    cases schema with
    | primitive type => exact .primitive (Primitive.fault?_eq_none.mp h)
    | enumeration type values =>
      have hboth := Primitive.ite_none_eq_none.mp h
      rw [Bool.and_eq_true, List.any_eq_true] at hboth
      exact .enumeration hboth.1 hboth.2
    | object fields =>
      cases value with
      | object entries => exact .object fields entries
      | _ => cases h
    | array element =>
      cases value with
      | array items => exact .array element items
      | _ => cases h
    | map inner =>
      cases value with
      | object entries => exact .map inner entries
      | _ => cases h

end Schema

inductive ValueStep where
  | field (name : Text)
  | element (index : Nat)
  | key (name : Text)
  deriving DecidableEq, Repr

def ValueStep.text : ValueStep → Text
  | field name => Text.joined ["field '", name, "': "]
  | element index => Text.joined ["element ", Text.ofNat index, ": "]
  | key name => Text.joined ["key '", name, "': "]

/-- Something that is wrong in a value: where it is, with the parts of each level counted in the
order of the document, the steps that lead there, and what is told about it. -/
structure Offence where
  place : List Nat
  way : List ValueStep
  complaint : Text
  deriving DecidableEq, Repr

namespace Offence

def message (o : Offence) : Text := o.way.flatMap ValueStep.text ++ o.complaint

def inside (o : Offence) (n : Nat) (step : ValueStep) : Offence :=
  ⟨n :: o.place, step :: o.way, o.complaint⟩

theorem message_inside (o : Offence) (n : Nat) (step : ValueStep) :
    (o.inside n step).message = step.text ++ o.message := by
  simp [message, inside]

end Offence

/-- The messages are one for each offence, in the order of the document. -/
def Reports (messages : List Text) (Wrong : Offence → Prop) : Prop :=
  ∃ offences : List Offence, messages = offences.map Offence.message ∧
    (offences.map Offence.place).Pairwise (· < ·) ∧ ∀ o, o ∈ offences ↔ Wrong o

namespace Schema

def complaint (schema : Schema) (value : Json) : Text :=
  Text.joined [value.render, " ", (schema.outerFault? value).getD []]

/-- What offends against a schema: a value that does not fit from outside, a field that is not
declared, and what offends in a part against the schema of that part. -/
inductive Offends : Schema → Json → Offence → Prop where
  | misfit {schema : Schema} {value : Json} (h : ¬ schema.Fits value) :
      Offends schema value ⟨[], [], schema.complaint value⟩
  | undeclared {fields : List (Text × Schema)} {entries : List (Text × Json)} {n : Nat}
      {name : Text} {value : Json} (part : entries[n]? = some (name, value))
      (h : field? name fields = none) :
      Offends (.object fields) (.object entries)
        ⟨[n], [], Text.joined ["'", name, "' is not a field of the object"]⟩
  | field {fields : List (Text × Schema)} {entries : List (Text × Json)} {n : Nat} {name : Text}
      {value : Json} {schema : Schema} {o : Offence} (part : entries[n]? = some (name, value))
      (declared : field? name fields = some schema) (h : Offends schema value o) :
      Offends (.object fields) (.object entries) (o.inside n (.field name))
  | element {element : Schema} {items : List Json} {n : Nat} {item : Json} {o : Offence}
      (part : items[n]? = some item) (h : Offends element item o) :
      Offends (.array element) (.array items) (o.inside n (.element n))
  | key {schema : Schema} {entries : List (Text × Json)} {n : Nat} {name : Text} {value : Json}
      {o : Offence} (part : entries[n]? = some (name, value)) (h : Offends schema value o) :
      Offends (.map schema) (.object entries) (o.inside n (.key name))

end Schema

namespace Reports

theorem congr {messages : List Text} {Wrong Wrong' : Offence → Prop}
    (h : Reports messages Wrong) (hiff : ∀ o, Wrong o ↔ Wrong' o) : Reports messages Wrong' := by
  obtain ⟨offences, hmessages, hsorted, hmem⟩ := h
  exact ⟨offences, hmessages, hsorted, fun o => (hmem o).trans (hiff o)⟩

theorem nil {Wrong : Offence → Prop} (h : ∀ o, ¬ Wrong o) : Reports [] Wrong :=
  ⟨[], rfl, .nil, fun o => iff_of_false List.not_mem_nil (h o)⟩

theorem single (o : Offence) : Reports [o.message] (· = o) :=
  ⟨[o], rfl, List.pairwise_singleton _ _, fun _ => List.mem_singleton⟩

theorem inside {messages : List Text} {Wrong : Offence → Prop} (h : Reports messages Wrong)
    (n : Nat) (step : ValueStep) :
    Reports (messages.map (step.text ++ ·)) fun o => ∃ o', Wrong o' ∧ o = o'.inside n step := by
  obtain ⟨offences, rfl, hsorted, hmem⟩ := h
  refine ⟨offences.map (·.inside n step), ?_, ?_, ?_⟩
  · simp only [List.map_map]
    exact List.map_congr_left fun o _ => (o.message_inside n step).symm
  · rw [List.map_map, List.pairwise_map]
    rw [List.pairwise_map] at hsorted
    exact hsorted.imp fun h => List.cons_lt_cons_self.mpr h
  · intro o
    simp only [List.mem_map, hmem, eq_comm]

theorem append {messages messages' : List Text} {Wrong Wrong' : Offence → Prop}
    (h : Reports messages Wrong) (h' : Reports messages' Wrong')
    (hbefore : ∀ o o', Wrong o → Wrong' o' → o.place < o'.place) :
    Reports (messages ++ messages') fun o => Wrong o ∨ Wrong' o := by
  obtain ⟨offences, rfl, hsorted, hmem⟩ := h
  obtain ⟨offences', rfl, hsorted', hmem'⟩ := h'
  refine ⟨offences ++ offences', List.map_append.symm, ?_, fun o => ?_⟩
  · rw [List.map_append, List.pairwise_append]
    refine ⟨hsorted, hsorted', ?_⟩
    intro p hp p' hp'
    obtain ⟨o, ho, rfl⟩ := List.mem_map.mp hp
    obtain ⟨o', ho', rfl⟩ := List.mem_map.mp hp'
    exact hbefore o o' ((hmem o).mp ho) ((hmem' o').mp ho')
  · rw [List.mem_append, hmem, hmem']

end Reports

/-- Something is wrong in one of the parts, which are counted from the given number on. -/
def AmongParts {α : Type} (Wrong : Nat → α → Offence → Prop) (start : Nat) (parts : List α)
    (o : Offence) : Prop :=
  ∃ i part, parts[i]? = some part ∧ Wrong (start + i) part o

theorem amongParts_cons {α : Type} {Wrong : Nat → α → Offence → Prop} {start : Nat} {part : α}
    {parts : List α} {o : Offence} : AmongParts Wrong start (part :: parts) o ↔
      Wrong start part o ∨ AmongParts Wrong (start + 1) parts o := by
  constructor
  · rintro ⟨i, p, hp, hwrong⟩
    cases i with
    | zero =>
      cases hp
      exact Or.inl hwrong
    | succ i =>
      rw [show start + (i + 1) = start + 1 + i by omega] at hwrong
      exact Or.inr ⟨i, p, hp, hwrong⟩
  · rintro (hwrong | ⟨i, p, hp, hwrong⟩)
    · exact ⟨0, part, rfl, hwrong⟩
    · rw [show start + 1 + i = start + (i + 1) by omega] at hwrong
      exact ⟨i + 1, p, hp, hwrong⟩

namespace Reports

variable {α : Type} {Wrong : Nat → α → Offence → Prop}

theorem parts_nil (start : Nat) : Reports [] (AmongParts Wrong start []) :=
  .nil fun _ ⟨_, _, hpart, _⟩ => by simp at hpart

theorem parts_cons {messages messages' : List Text} {start : Nat} {part : α} {parts : List α}
    (hplace : ∀ n part o, Wrong n part o → o.place.head? = some n)
    (h : Reports messages (Wrong start part))
    (h' : Reports messages' (AmongParts Wrong (start + 1) parts)) :
    Reports (messages ++ messages') (AmongParts Wrong start (part :: parts)) := by
  refine congr (append h h' ?_) fun o => amongParts_cons.symm
  rintro o o' ho ⟨i, p, -, ho'⟩
  obtain ⟨rest, hrest⟩ := List.head?_eq_some_iff.mp (hplace _ _ _ ho)
  obtain ⟨rest', hrest'⟩ := List.head?_eq_some_iff.mp (hplace _ _ _ ho')
  rw [hrest, hrest', List.cons_lt_cons_iff]
  exact Or.inl (by omega)

end Reports

namespace Schema

def ElementOffends (element : Schema) (n : Nat) (item : Json) (o : Offence) : Prop :=
  ∃ o', element.Offends item o' ∧ o = o'.inside n (.element n)

def KeyOffends (schema : Schema) (n : Nat) (entry : Text × Json) (o : Offence) : Prop :=
  ∃ o', schema.Offends entry.2 o' ∧ o = o'.inside n (.key entry.1)

inductive FieldOffends (fields : List (Text × Schema)) (n : Nat) (entry : Text × Json) :
    Offence → Prop where
  | undeclared (h : field? entry.1 fields = none) : FieldOffends fields n entry
      ⟨[n], [], Text.joined ["'", entry.1, "' is not a field of the object"]⟩
  | declared {schema : Schema} {o : Offence} (declared : field? entry.1 fields = some schema)
      (h : schema.Offends entry.2 o) :
      FieldOffends fields n entry (o.inside n (.field entry.1))

variable {fields : List (Text × Schema)} {entries : List (Text × Json)} {items : List Json}
  {o : Offence}

theorem offends_object : (object fields).Offends (.object entries) o ↔
    AmongParts (FieldOffends fields) 0 entries o := by
  constructor
  · intro h
    cases h with
    | misfit h => exact absurd (.object fields entries) h
    | @undeclared _ _ n name value part h =>
      refine ⟨n, (name, value), part, ?_⟩
      rw [Nat.zero_add]
      exact .undeclared h
    | @field _ _ n name value _ _ part declared h =>
      refine ⟨n, (name, value), part, ?_⟩
      rw [Nat.zero_add]
      exact .declared declared h
  · rintro ⟨n, ⟨name, value⟩, part, h⟩
    rw [Nat.zero_add] at h
    cases h with
    | undeclared h => exact .undeclared part h
    | declared declared h => exact .field part declared h

theorem offends_array {element : Schema} : (array element).Offends (.array items) o ↔
    AmongParts (ElementOffends element) 0 items o := by
  constructor
  · intro h
    cases h with
    | misfit h => exact absurd (.array element items) h
    | @element _ _ n item _ part h =>
      refine ⟨n, item, part, ?_⟩
      rw [Nat.zero_add]
      exact ⟨_, h, rfl⟩
  · rintro ⟨n, item, part, o, h, rfl⟩
    rw [Nat.zero_add]
    exact .element part h

theorem offends_map {schema : Schema} : (map schema).Offends (.object entries) o ↔
    AmongParts (KeyOffends schema) 0 entries o := by
  constructor
  · intro h
    cases h with
    | misfit h => exact absurd (.map schema entries) h
    | @key _ _ n name value _ part h =>
      refine ⟨n, (name, value), part, ?_⟩
      rw [Nat.zero_add]
      exact ⟨_, h, rfl⟩
  · rintro ⟨n, ⟨name, value⟩, part, o, h, rfl⟩
    rw [Nat.zero_add]
    exact .key part h

/-- Where nothing is gone into, a value can only be wrong as a whole. -/
theorem reports_outerViolations {schema : Schema} {value : Json}
    (hwhole : ∀ o, schema.Offends value o →
      ¬ schema.Fits value ∧ o = ⟨[], [], schema.complaint value⟩) :
    Reports (schema.outerViolations value) (schema.Offends value) := by
  by_cases hfits : schema.Fits value
  · rw [outerViolations_eq_nil.mpr (fits_iff.mp hfits)]
    exact .nil fun o ho => (hwhole o ho).1 hfits
  · obtain ⟨fault, hfault⟩ := Option.ne_none_iff_exists'.mp (mt fits_iff.mpr hfits)
    have hmessage : schema.outerViolations value =
        [Offence.message ⟨[], [], schema.complaint value⟩] := by
      rw [outerViolations, complaint, hfault]
      rfl
    rw [hmessage]
    refine (Reports.single _).congr fun o => ⟨?_, fun ho => (hwhole o ho).2⟩
    rintro rfl
    exact .misfit hfits

theorem fieldOffends_of_undeclared {n : Nat} {name : Text} {value : Json}
    (h : field? name fields = none) : FieldOffends fields n (name, value) o ↔
      o = ⟨[n], [], Text.joined ["'", name, "' is not a field of the object"]⟩ := by
  constructor
  · intro ho
    cases ho with
    | undeclared => rfl
    | declared declared => cases h.symm.trans declared
  · rintro rfl
    exact .undeclared h

theorem fieldOffends_of_declared {n : Nat} {name : Text} {value : Json} {schema : Schema}
    (h : field? name fields = some schema) : FieldOffends fields n (name, value) o ↔
      ∃ o', schema.Offends value o' ∧ o = o'.inside n (.field name) := by
  constructor
  · intro ho
    cases ho with
    | undeclared hnone => cases h.symm.trans hnone
    | declared declared ho =>
      cases h.symm.trans declared
      exact ⟨_, ho, rfl⟩
  · rintro ⟨o', ho, rfl⟩
    exact .declared h ho

theorem joined_snoc (a b c violation : Text) :
    Text.joined [a, b, c, violation] = Text.joined [a, b, c] ++ violation := by
  simp

theorem atField_eq (name : Text) : atField name = ((ValueStep.field name).text ++ ·) :=
  funext fun _ => joined_snoc _ _ _ _

theorem atElement_eq (index : Nat) : atElement index = ((ValueStep.element index).text ++ ·) :=
  funext fun _ => joined_snoc _ _ _ _

theorem atKey_eq (key : Text) : atKey key = ((ValueStep.key key).text ++ ·) :=
  funext fun _ => joined_snoc _ _ _ _

theorem place_fieldOffends {n : Nat} {entry : Text × Json}
    (h : FieldOffends fields n entry o) : o.place.head? = some n := by
  cases h <;> rfl

theorem place_elementOffends {element : Schema} {n : Nat} {item : Json}
    (h : ElementOffends element n item o) : o.place.head? = some n := by
  obtain ⟨o, -, rfl⟩ := h
  rfl

theorem place_keyOffends {schema : Schema} {n : Nat} {entry : Text × Json}
    (h : KeyOffends schema n entry o) : o.place.head? = some n := by
  obtain ⟨o, -, rfl⟩ := h
  rfl

mutual

theorem reports_violations (schema : Schema) (value : Json) :
    Reports (schema.violations value) (schema.Offends value) := by
  match value with
  | .object entries =>
    unfold violations
    cases schema with
    | object fields =>
      exact (reports_fieldViolations fields 0 entries).congr fun o => offends_object.symm
    | map inner => exact (reports_keyViolations inner 0 entries).congr fun o => offends_map.symm
    | _ => exact reports_outerViolations fun o ho => by cases ho; exact ⟨‹_›, rfl⟩
  | .array items =>
    unfold violations
    cases schema with
    | array element =>
      exact (reports_elementViolations element 0 items).congr fun o => offends_array.symm
    | _ => exact reports_outerViolations fun o ho => by cases ho; exact ⟨‹_›, rfl⟩
  | .null | .bool _ | .number _ | .string _ =>
    unfold violations
    exact reports_outerViolations fun o ho => by cases ho; exact ⟨‹_›, rfl⟩

theorem reports_fieldViolations (fields : List (Text × Schema)) (n : Nat)
    (entries : List (Text × Json)) :
    Reports (fieldViolations fields entries) (AmongParts (FieldOffends fields) n entries) := by
  match entries with
  | [] => exact .parts_nil n
  | (name, value) :: entries =>
    unfold fieldViolations
    refine .parts_cons (fun _ _ _ => place_fieldOffends) ?_
      (reports_fieldViolations fields (n + 1) entries)
    cases hdeclared : field? name fields with
    | none =>
      exact (Reports.single _).congr fun o => (fieldOffends_of_undeclared hdeclared).symm
    | some schema =>
      dsimp only
      rw [atField_eq]
      exact ((reports_violations schema value).inside n (.field name)).congr fun o =>
        (fieldOffends_of_declared hdeclared).symm

theorem reports_elementViolations (element : Schema) (n : Nat) (items : List Json) :
    Reports (elementViolations element n items) (AmongParts (ElementOffends element) n items) := by
  match items with
  | [] => exact .parts_nil n
  | item :: items =>
    unfold elementViolations
    rw [atElement_eq]
    exact .parts_cons (fun _ _ _ => place_elementOffends)
      ((reports_violations element item).inside n (.element n))
      (reports_elementViolations element (n + 1) items)

theorem reports_keyViolations (schema : Schema) (n : Nat) (entries : List (Text × Json)) :
    Reports (keyViolations schema entries) (AmongParts (KeyOffends schema) n entries) := by
  match entries with
  | [] => exact .parts_nil n
  | (key, value) :: entries =>
    unfold keyViolations
    rw [atKey_eq]
    exact .parts_cons (fun _ _ _ => place_keyOffends)
      ((reports_violations schema value).inside n (.key key))
      (reports_keyViolations schema (n + 1) entries)

end

/-- The violations of a value are one message for each thing that is wrong with it, in the order of
the document, and behind the steps that lead there. There are none exactly if the value conforms. -/
theorem violations_one_per_offence (schema : Schema) (value : Json) :
    (∃ offences : List Offence, schema.violations value = offences.map Offence.message ∧
      (offences.map Offence.place).Pairwise (· < ·) ∧
      ∀ o, o ∈ offences ↔ schema.Offends value o) ∧
    (schema.violations value = [] ↔ schema.Accepts value) ∧
    (schema.Accepts value ↔ ∀ o, ¬ schema.Offends value o) := by
  have hreports := reports_violations schema value
  refine ⟨hreports, violations_eq_nil schema value, ?_⟩
  obtain ⟨offences, hmessages, -, hmem⟩ := hreports
  rw [← violations_eq_nil, hmessages, List.map_eq_nil_iff, List.eq_nil_iff_forall_not_mem]
  exact forall_congr' fun o => not_congr (hmem o)

/-- The sizes are numbered, the other field is not declared, and one of the tags is wrong. -/
example :
    violations
      (object [("sizes", array (.primitive .integer)), ("tags", map (.primitive .boolean))])
      (.object [("sizes", .array [.bool true, .number (.whole 1 (by decide)), .string "x"]),
        ("other", .null), ("tags", .object [("a", .bool true), ("b", .null)])]) =
      (["field 'sizes': element 0: true is not an integer value",
        "field 'sizes': element 2: \"x\" is not an integer value",
        "'other' is not a field of the object",
        "field 'tags': key 'b': null is not a boolean value"] : List Text) := by
  decide +kernel

end Schema
end TwinGraph
