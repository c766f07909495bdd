import Mathlib.Logic.Relation
import TwinGraph.Proofs.Model.Declarations

/-! Schemas behind names. A schema comes back from its document, whatever parts of it the document
only names, as long as it does not nest too deep; what leads back to itself is never a schema. -/
namespace TwinGraph

open Outcome Relation

inductive Json.Holds : Json → Json → Prop where
  | same (value : Json) : Holds value value
  | object {fields others : Fields Json}
      (h : ∀ name value, Fields.find? name others = some value →
        Fields.find? name fields = some value) : Holds (.object fields) (.object others)

theorem Json.Holds.fields {value : Json} {others : Fields Json} (h : value.Holds (.object others)) :
    ∃ fields, value = .object fields ∧ ∀ name part, Fields.find? name others = some part →
      Fields.find? name fields = some part := by
  cases h with
  | same => exact ⟨others, rfl, fun _ _ => id⟩
  | object h => exact ⟨_, rfl, h⟩

theorem Json.Holds.cons {key : Text} {others : Fields Json} (h : key ∉ others.names)
    (part : Json) : Json.Holds (.object ((key, part) :: others)) (.object others) := by
  refine .object fun name value hvalue => ?_
  by_cases hkey : key = name
  · subst hkey
    rw [Fields.find?_eq_none.mpr h] at hvalue
    cases hvalue
  · rw [Fields.find?, if_neg hkey]
    exact hvalue

def EnumType.word : EnumType → Text
  | integer => "integer"
  | string => "string"

def EnumValue.document (v : EnumValue) : Json :=
  .object [("name", .string v.name), ("enumValue", v.value)]

namespace Schema

/-- A schema with the parts of it that stand behind names. -/
inductive Layout where
  | primitive (type : Primitive)
  | enumeration (type : EnumType) (values : List EnumValue)
  | object (fields : List (Text × Layout))
  | array (element : Layout)
  | map (value : Layout)
  | named (id : Text) (definition : Layout)

namespace Layout

mutual

def schema : Layout → Schema
  | primitive type => .primitive type
  | enumeration type values => .enumeration type values
  | object fields => .object (schemaFields fields)
  | array element => .array element.schema
  | map value => .map value.schema
  | named _ definition => definition.schema

def schemaFields : List (Text × Layout) → List (Text × Schema)
  | [] => []
  | (name, layout) :: fields => (name, layout.schema) :: schemaFields fields

end

mutual

/-- The document of the schema, with the names in it. -/
def document : Layout → Json
  | primitive type => .string type.name
  | enumeration type values =>
    .object [("@type", .string "Enum"), ("valueSchema", .string type.word),
      ("enumValues", .array (values.map EnumValue.document))]
  | object fields =>
    .object [("@type", .string "Object"), ("fields", .array (documentFields fields))]
  | array element => .object [("@type", .string "Array"), ("elementSchema", element.document)]
  | map value =>
    .object [("@type", .string "Map"),
      ("mapKey", .object [("name", .string "key"), ("schema", .string "string")]),
      ("mapValue", .object [("name", .string "value"), ("schema", value.document)])]
  | named id _ => .string id

def documentFields : List (Text × Layout) → List Json
  | [] => []
  | (name, layout) :: fields =>
    .object [("name", .string name), ("schema", layout.document)] :: documentFields fields

end

mutual

/-- How many levels there are below the outermost one. What stands behind a name is a level below
the name. -/
def depth : Layout → Nat
  | primitive _ | enumeration _ _ => 0
  | object fields => depthFields fields
  | array element => element.depth + 1
  | map value => value.depth + 1
  | named _ definition => definition.depth + 1

def depthFields : List (Text × Layout) → Nat
  | [] => 0
  | (_, layout) :: fields => max (layout.depth + 1) (depthFields fields)

end

mutual

/-- Each name is no primitive, and under it the table has the document of what stands behind it. -/
def Offered (reusable : Text → Option Json) : Layout → Prop
  | primitive _ | enumeration _ _ => True
  | object fields => OfferedFields reusable fields
  | array element => element.Offered reusable
  | map value => value.Offered reusable
  | named id definition => Primitive.ofName? id = none ∧
    (∃ entry, reusable id = some entry ∧ entry.Holds definition.document) ∧
    definition.Offered reusable

def OfferedFields (reusable : Text → Option Json) : List (Text × Layout) → Prop
  | [] => True
  | (_, layout) :: fields => layout.Offered reusable ∧ OfferedFields reusable fields

end

end Layout

mutual

def layout : Schema → Layout
  | primitive type => .primitive type
  | enumeration type values => .enumeration type values
  | object fields => .object (layoutFields fields)
  | array element => .array element.layout
  | map value => .map value.layout

def layoutFields : List (Text × Schema) → List (Text × Layout)
  | [] => []
  | (name, schema) :: fields => (name, schema.layout) :: layoutFields fields

end

def document (schema : Schema) : Json := schema.layout.document

def depth (schema : Schema) : Nat := schema.layout.depth

mutual

theorem schema_layout : (schema : Schema) → schema.layout.schema = schema
  | .primitive _ | .enumeration _ _ => rfl
  | .object fields => congrArg Schema.object (schemaFields_layout fields)
  | .array element => congrArg Schema.array (schema_layout element)
  | .map value => congrArg Schema.map (schema_layout value)

theorem schemaFields_layout : (fields : List (Text × Schema)) →
    Layout.schemaFields (layoutFields fields) = fields
  | [] => rfl
  | (name, schema) :: fields => by
    rw [layoutFields, Layout.schemaFields, schema_layout schema, schemaFields_layout fields]

end

mutual

theorem offered_layout (reusable : Text → Option Json) :
    (schema : Schema) → schema.layout.Offered reusable
  | .primitive _ | .enumeration _ _ => trivial
  | .object fields => offeredFields_layout reusable fields
  | .array element => offered_layout reusable element
  | .map value => offered_layout reusable value

theorem offeredFields_layout (reusable : Text → Option Json) :
    (fields : List (Text × Schema)) → Layout.OfferedFields reusable (layoutFields fields)
  | [] => trivial
  | (_, schema) :: fields =>
    ⟨offered_layout reusable schema, offeredFields_layout reusable fields⟩

end

/-! ### One level -/

section
variable {reusable : Text → Option Json} {levels : Nat} {fields : Fields Json}

theorem ofName?_name (type : Primitive) : Primitive.ofName? type.name = some type := by
  cases type <;> decide

theorem readWithin_primitive (type : Primitive) :
    readWithin reusable (levels + 1) (.string type.name) = .ok (.primitive type) := by
  unfold readWithin
  dsimp only
  rw [ofName?_name]

theorem readWithin_name {id : Text} {definition : Json} (hother : Primitive.ofName? id = none)
    (hentry : reusable id = some definition) :
    readWithin reusable (levels + 1) (.string id) = readWithin reusable levels definition := by
  conv => lhs; unfold readWithin
  dsimp only
  rw [hother]
  dsimp only
  rw [hentry]

theorem schemaType_eq {word : Text} (h : Fields.find? "@type" fields = some (.string word)) :
    ((Json.object fields).stringField? "@type").getD [] = word := by
  rw [Json.stringField?, Json.field?, h]
  rfl

theorem requiredPart_eq {part : Text} {value : Json} (word : Text)
    (h : Fields.find? part fields = some value) :
    requiredPart word part (.object fields) = .ok value :=
  requiredPart_eq_ok.mpr h

theorem readEnumType_word (type : EnumType) : readEnumType (.string type.word) = .ok type := by
  cases type <;> decide

theorem readWithin_enumeration {type : EnumType} {entries : List Json}
    (htype : Fields.find? "@type" fields = some (.string "Enum"))
    (hschema : Fields.find? "valueSchema" fields = some (.string type.word))
    (hvalues : Fields.find? "enumValues" fields = some (.array entries)) :
    readWithin reusable (levels + 1) (.object fields) =
      entries.mapM readEnumValue >>= fun values => pure (.enumeration type values) := by
  unfold readWithin
  dsimp only
  rw [schemaType_eq htype, if_pos rfl, requiredPart_eq _ hschema,
    requiredPart_eq _ hvalues]
  dsimp only [bind, Except.bind]
  rw [readEnumType_word]
  rfl

def readField (reusable : Text → Option Json) (levels : Nat) (field : Json) :
    Except ModelError (Text × Schema) := do
  match field.stringField? "name" with
  | none => throw (.invalidDocument (.namelessField field))
  | some name =>
    match field.field? "schema" with
    | none => throw (.invalidDocument (.fieldWithoutSchema name))
    | some value => return (name, ← readWithin reusable levels value)

theorem readWithin_object {entries : List Json}
    (htype : Fields.find? "@type" fields = some (.string "Object"))
    (hfields : Fields.find? "fields" fields = some (.array entries)) :
    readWithin reusable (levels + 1) (.object fields) =
      entries.mapM (readField reusable levels) >>= fun parts => pure (.object parts) := by
  unfold readWithin
  dsimp only
  rw [schemaType_eq htype, if_neg (by decide), if_pos rfl, requiredPart_eq _ hfields]
  rfl

theorem readWithin_array {element : Json}
    (htype : Fields.find? "@type" fields = some (.string "Array"))
    (helement : Fields.find? "elementSchema" fields = some element) :
    readWithin reusable (levels + 1) (.object fields) =
      readWithin reusable levels element >>= fun schema => pure (.array schema) := by
  conv => lhs; unfold readWithin
  dsimp only
  rw [schemaType_eq htype, if_neg (by decide), if_neg (by decide), if_pos rfl,
    requiredPart_eq _ helement]
  rfl

theorem readWithin_map {part value : Json}
    (htype : Fields.find? "@type" fields = some (.string "Map"))
    (hpart : Fields.find? "mapValue" fields = some part)
    (hvalue : part.field? "schema" = some value) :
    readWithin reusable (levels + 1) (.object fields) =
      readWithin reusable levels value >>= fun schema => pure (.map schema) := by
  conv => lhs; unfold readWithin
  dsimp only
  rw [schemaType_eq htype, if_neg (by decide), if_neg (by decide), if_neg (by decide), if_pos rfl,
    requiredPart_eq _ hpart]
  dsimp only [bind, Except.bind]
  rw [hvalue]

theorem readField_eq {name : Text} {value : Json} {field : Json}
    (hname : field.stringField? "name" = some name) (hvalue : field.field? "schema" = some value) :
    readField reusable levels field =
      readWithin reusable levels value >>= fun schema => pure (name, schema) := by
  unfold readField
  rw [hname]
  dsimp only
  rw [hvalue]

end

/-! ### Any document of a schema -/

def limited {α : Type} (levels depth : Nat) (a : α) : Except ModelError α :=
  if depth < levels then .ok a else .error (.unsupportedSchema (.tooDeep maxDepth))

theorem limited_succ {α : Type} (levels depth : Nat) (a : α) :
    limited (levels + 1) (depth + 1) a = limited levels depth a := by
  simp only [limited, Nat.add_lt_add_iff_right]

theorem limited_map {α β : Type} (levels depth : Nat) (a : α) (f : α → β) :
    (limited levels depth a >>= fun a => pure (f a)) = limited levels depth (f a) := by
  unfold limited
  split <;> rfl

theorem limited_cons {α : Type} (levels depth depths : Nat) (a : α) (as : List α) :
    (limited levels depth a >>= fun a => limited levels depths as >>= fun as => pure (a :: as)) =
      limited levels (max depth depths) (a :: as) := by
  unfold limited
  by_cases h : depth < levels
  · by_cases h' : depths < levels
    · rw [if_pos h, if_pos h', if_pos (Nat.max_lt.mpr ⟨h, h'⟩)]
      rfl
    · rw [if_pos h, if_neg h', if_neg fun hmax => h' (Nat.max_lt.mp hmax).2]
      rfl
  · have hmax : ¬max depth depths < levels := fun hmax => h (Nat.max_lt.mp hmax).1
    rw [if_neg h, if_neg hmax]
    rfl

theorem mapM_readEnumValue (values : List EnumValue) :
    (values.map EnumValue.document).mapM readEnumValue = .ok values := by
  rw [mapM_eq_ok, List.forall₂_map_left_iff]
  exact List.forall₂_same.mpr fun _ _ => rfl

section
variable {reusable : Text → Option Json}

mutual

/-- A document of a schema is read as that schema exactly if there are levels enough for it. -/
theorem readWithin_document : (w : Layout) → (levels : Nat) → {value : Json} →
    value.Holds w.document → w.Offered reusable →
    readWithin reusable levels value = limited levels w.depth w.schema
  | _, 0, _, _, _ => rfl
  | .primitive type, levels + 1, _, .same _, _ => readWithin_primitive type
  -- Only the outermost object can have more fields than the document, so what is read inside it
  -- is the document of a part again.
  | .enumeration type values, levels + 1, _, h, _ => by
    obtain ⟨fields, rfl, hhas⟩ := h.fields
    rw [readWithin_enumeration (hhas _ _ rfl) (hhas _ _ rfl) (hhas _ _ rfl), mapM_readEnumValue]
    rfl
  | .object fields, levels + 1, _, h, ho => by
    obtain ⟨given, rfl, hhas⟩ := h.fields
    rw [readWithin_object (hhas _ _ rfl) (hhas _ _ rfl), mapM_readField fields levels ho,
      limited_map]
    rfl
  | .array element, levels + 1, _, h, ho => by
    obtain ⟨fields, rfl, hhas⟩ := h.fields
    rw [readWithin_array (hhas _ _ rfl) (hhas _ _ rfl),
      readWithin_document element levels (.same _) ho, limited_map, ← limited_succ]
    rfl
  | .map inner, levels + 1, _, h, ho => by
    obtain ⟨fields, rfl, hhas⟩ := h.fields
    rw [readWithin_map (hhas _ _ rfl) (hhas _ _ rfl) rfl,
      readWithin_document inner levels (.same _) ho, limited_map, ← limited_succ]
    rfl
  | .named id definition, levels + 1, _, .same _, ⟨hother, ⟨entry, hentry, hholds⟩, ho⟩ => by
    rw [Layout.document, readWithin_name hother hentry,
      readWithin_document definition levels hholds ho, ← limited_succ]
    rfl

theorem mapM_readField : (fields : List (Text × Layout)) → (levels : Nat) →
    Layout.OfferedFields reusable fields →
    (Layout.documentFields fields).mapM (readField reusable levels) =
      limited (levels + 1) (Layout.depthFields fields) (Layout.schemaFields fields)
  | [], _, _ => rfl
  | (name, w) :: fields, levels, ⟨hw, hfields⟩ => by
    rw [Layout.documentFields, List.mapM_cons, readField_eq rfl rfl,
      readWithin_document w levels (.same _) hw, limited_map, ← limited_succ,
      mapM_readField fields levels hfields, limited_cons]
    rfl

end
end

/-! ### Cycles -/

/-- Reading the first value takes reading the second, a level below it. -/
inductive Refers (reusable : Text → Option Json) : Json → Json → Prop where
  | name {id : Text} {definition : Json} (other : Primitive.ofName? id = none)
      (entry : reusable id = some definition) : Refers reusable (.string id) definition
  | field {fields : Fields Json} {entries : List Json} {entry value : Json}
      (type : Fields.find? "@type" fields = some (.string "Object"))
      (has : Fields.find? "fields" fields = some (.array entries)) (mem : entry ∈ entries)
      (schema : entry.field? "schema" = some value) : Refers reusable (.object fields) value
  | element {fields : Fields Json} {value : Json}
      (type : Fields.find? "@type" fields = some (.string "Array"))
      (has : Fields.find? "elementSchema" fields = some value) :
      Refers reusable (.object fields) value
  | mapValue {fields : Fields Json} {part value : Json}
      (type : Fields.find? "@type" fields = some (.string "Map"))
      (has : Fields.find? "mapValue" fields = some part)
      (schema : part.field? "schema" = some value) : Refers reusable (.object fields) value

section
variable {reusable : Text → Option Json} {levels : Nat} {value next : Json} {schema : Schema}

theorem readField_eq_ok {field : Json} {part : Text × Schema}
    (hvalue : field.field? "schema" = some value)
    (h : readField reusable levels field = .ok part) :
    readWithin reusable levels value = .ok part.2 := by
  unfold readField at h
  split at h
  · cases h
  · rw [hvalue] at h
    obtain ⟨read, hread, h⟩ := bind_eq_ok.mp h
    cases h
    exact hread

theorem Refers.read (hrefers : Refers reusable value next)
    (h : readWithin reusable (levels + 1) value = .ok schema) :
    ∃ inner, readWithin reusable levels next = .ok inner := by
  cases hrefers with
  | name other entry =>
    rw [readWithin_name other entry] at h
    exact ⟨schema, h⟩
  | field type has mem hvalue =>
    rw [readWithin_object type has] at h
    obtain ⟨parts, hparts, -⟩ := bind_eq_ok.mp h
    obtain ⟨part, -, hpart⟩ := ok_of_mapM hparts _ mem
    exact ⟨part.2, readField_eq_ok hvalue hpart⟩
  | element type has =>
    rw [readWithin_array type has] at h
    obtain ⟨inner, hinner, -⟩ := bind_eq_ok.mp h
    exact ⟨inner, hinner⟩
  | mapValue type has hvalue =>
    rw [readWithin_map type has hvalue] at h
    obtain ⟨inner, hinner, -⟩ := bind_eq_ok.mp h
    exact ⟨inner, hinner⟩

/-- What the value refers to, one thing after another, comes to something that refers to itself. -/
def EntersCycle (reusable : Text → Option Json) (value : Json) : Prop :=
  ∃ turn, ReflTransGen (Refers reusable) value turn ∧ TransGen (Refers reusable) turn turn

theorem EntersCycle.step (h : EntersCycle reusable value) :
    ∃ next, Refers reusable value next ∧ EntersCycle reusable next := by
  obtain ⟨turn, hto, hround⟩ := h
  rcases hto.cases_head with rfl | ⟨next, hrefers, hto⟩
  · obtain ⟨next, hrefers, hback⟩ := TransGen.head'_iff.mp hround
    exact ⟨next, hrefers, value, hback, hround⟩
  · exact ⟨next, hrefers, turn, hto, hround⟩

/-- However many levels are left, they are used up on the way around. -/
theorem EntersCycle.not_read (h : EntersCycle reusable value) :
    readWithin reusable levels value ≠ .ok schema := by
  induction levels generalizing value schema with
  | zero => nofun
  | succ levels ih =>
    intro hread
    obtain ⟨next, hrefers, hnext⟩ := h.step
    obtain ⟨inner, hinner⟩ := hrefers.read hread
    exact ih hnext hinner

end

/-- Every schema is read back from its document, and from every document that has some of its parts
behind names, each name a level of its own; unless it nests too deep, which is the error then. What
comes to refer to itself is an error in any case. -/
theorem documents_decode_back (reusable : Text → Option Json) :
    (∀ schema : Schema, read reusable schema.document =
      if schema.depth ≤ maxDepth then .ok schema
      else .error (.unsupportedSchema (.tooDeep maxDepth))) ∧
    (∀ w : Layout, w.Offered reusable → read reusable w.document =
      if w.depth ≤ maxDepth then .ok w.schema
      else .error (.unsupportedSchema (.tooDeep maxDepth))) ∧
    ∀ value turn, ReflTransGen (Refers reusable) value turn →
      TransGen (Refers reusable) turn turn → ∃ e, read reusable value = .error e := by
  have hread : ∀ w : Layout, w.Offered reusable → read reusable w.document =
      if w.depth ≤ maxDepth then .ok w.schema
      else .error (.unsupportedSchema (.tooDeep maxDepth)) := by
    intro w ho
    rw [read, readWithin_document w (maxDepth + 1) (.same _) ho]
    simp only [limited, Nat.lt_succ_iff]
  refine ⟨fun schema => ?_, hread, fun value turn hto hround => ?_⟩
  · have h := hread schema.layout (offered_layout reusable schema)
    rw [schema_layout] at h
    exact h
  · cases h : read reusable value with
    | error e => exact ⟨e, rfl⟩
    | ok schema => exact absurd h (EntersCycle.not_read ⟨turn, hto, hround⟩)

def sharedSchemas : Fields Json :=
  [("dtmi:example:Readings;1", .object [("@id", .string "dtmi:example:Readings;1"),
      ("@type", .string "Array"), ("elementSchema", .string "integer")]),
    ("dtmi:example:History;1", .string "dtmi:example:Readings;1"),
    ("dtmi:example:Endless;1", .object [("@id", .string "dtmi:example:Endless;1"),
      ("@type", .string "Map"),
      ("mapValue", .object [("schema", .string "dtmi:example:Endless;1")])])]

def gauge : Layout :=
  .object [("past", .named "dtmi:example:History;1"
      (.named "dtmi:example:Readings;1" (.array (.primitive .integer)))),
    ("present", .array (.primitive .integer))]

theorem gauge_decodes_back :
    read (Fields.find? · sharedSchemas) gauge.document = .ok gauge.schema ∧
    ∃ e, read (Fields.find? · sharedSchemas) (.string "dtmi:example:Endless;1") = .error e := by
  obtain ⟨-, hread, hcycle⟩ := documents_decode_back (Fields.find? · sharedSchemas)
  constructor
  · have ho : gauge.Offered (Fields.find? · sharedSchemas) :=
      ⟨⟨by decide, ⟨_, rfl, .same _⟩, by decide, ⟨_, rfl, .cons (by decide) _⟩, trivial⟩, trivial,
        trivial⟩
    exact (hread gauge ho).trans (if_pos (by decide))
  · have hname : Refers (Fields.find? · sharedSchemas) (.string "dtmi:example:Endless;1") _ :=
      .name (by decide) rfl
    exact hcycle _ _ .refl (.tail (.single hname) (.mapValue rfl rfl rfl))

end Schema
end TwinGraph
