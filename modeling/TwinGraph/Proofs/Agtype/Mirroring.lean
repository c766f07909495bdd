import TwinGraph.Proofs.Agtype.PlainData
import TwinGraph.Proofs.Agtype.Thinning
import TwinGraph.Proofs.Json.Spelled

/-! What is decoded is what was received, part by part and in the same order, in the one form that it
can have. Nothing in it looks like a marker object any more, unless it is in the properties of an
entity. -/
namespace TwinGraph

open Agtype

inductive Json.Marks (word : Text) (value : Json) : Json → Prop where
  | kindFirst : Marks word value (object [(marker, string word), ("value", value)])
  | valueFirst : Marks word value (object [("value", value), (marker, string word)])

/-- A step from a value to one of its parts. -/
inductive Json.Step where
  | item (n : Nat)
  | field (name : Text)

def Json.part? : Json → Step → Option Json
  | array items, .item n => items[n]?
  | object fields, .field name => Fields.find? name fields
  | _, _ => none

def Json.at? : Json → List Step → Option Json
  | j, [] => some j
  | j, step :: place => (j.part? step).bind fun part => part.at? place

namespace Cell

def part? : Cell → Json.Step → Option Cell
  | path items, .item n => items[n]?
  | list items, .item n => items[n]?
  | map entries, .field name => Fields.find? name entries
  | _, _ => none

def properties? : Cell → Option (Fields Json)
  | vertex v => some v.properties
  | edge e => some e.properties
  | scalar _ | path _ | list _ | map _ => none

/-- The cell has the parts of the value, in their order: an item for an item, an entry for a field,
and an entity for a marker object. -/
inductive Mirrors : Json → Cell → Prop where
  | scalar (j) : Mirrors j (scalar j)
  | vertex {j value v} : Json.Marks vertexWord value j → Vertex.ofJson? value = some v →
      Mirrors j (vertex v)
  | edge {j value e} : Json.Marks edgeWord value j → Edge.ofJson? value = some e →
      Mirrors j (edge e)
  | path {j items cells} : Json.Marks pathWord (.array items) j → List.Forall₂ Mirrors items cells →
      Mirrors j (path cells)
  | list {items cells} : List.Forall₂ Mirrors items cells → Mirrors (.array items) (list cells)
  | map {fields : Fields Json} {entries : Fields Cell} : entries.names = fields.names →
      List.Forall₂ Mirrors (fields.map (·.2)) (entries.map (·.2)) →
      Mirrors (.object fields) (map entries)

/-- The cell is the value in the one form that it can have. -/
structure Represents (j : Json) (c : Cell) : Prop where
  mirrors : Mirrors j c
  canonical : c.Canonical
  entity : c.isScalar = false → c.HoldsEntity

/-! ### Entities -/

theorem signed_of_signed64? {j : Json} {n : Int} (h : j.signed64? = some n) : Signed n := by
  cases j with
  | number m =>
    cases m with
    | whole m fits =>
      rw [Json.signed64?, Number.signed64?] at h
      split at h
      · next hhigh =>
        cases h
        exact ⟨fits.1, hhigh⟩
      · cases h
    | float x => cases h
  | null | bool | string | array | object => cases h

theorem signed_of_bind {value : Option Json} {n : Int} (h : value >>= Json.signed64? = some n) :
    Signed n := by
  obtain ⟨j, -, hj⟩ := Option.bind_eq_some_iff.mp h
  exact signed_of_signed64? hj

theorem wellFormed_decodeProperties {value : Option Json} {properties : Fields Json}
    (hw : ∀ j ∈ value, j.WellFormed) (h : decodeProperties value = some properties) :
    (Json.object properties).WellFormed := by
  unfold decodeProperties at h
  split at h
  · cases h
    exact ⟨List.nodup_nil, trivial⟩
  · cases h
    exact hw _ rfl
  · cases h

/-- The last field of an entity that is written as a list may be left out. -/
theorem wellFormed_head? {items rest : List Json} (hw : (Json.array items).WellFormed)
    (hrest : rest <:+ items) : ∀ j ∈ rest.head?, j.WellFormed := fun j hj =>
  Json.wellFormedItems_iff.mp hw j (hrest.subset (List.mem_of_mem_head? hj))

theorem canonical_vertex {value : Json} {v : Vertex} (hw : value.WellFormed)
    (h : Vertex.ofJson? value = some v) : (vertex v).Canonical := by
  unfold Vertex.ofJson? at h
  split at h
  · obtain ⟨id, hid, h⟩ := Option.bind_eq_some_iff.mp h
    obtain ⟨label, -, h⟩ := Option.bind_eq_some_iff.mp h
    obtain ⟨properties, hproperties, h⟩ := Option.bind_eq_some_iff.mp h
    cases h
    exact .vertex (signed_of_bind hid) (wellFormed_decodeProperties (fun j hj => hw.field hj) hproperties)
  · split at h
    · cases h
    · obtain ⟨id, hid, h⟩ := Option.bind_eq_some_iff.mp h
      obtain ⟨label, -, h⟩ := Option.bind_eq_some_iff.mp h
      obtain ⟨properties, hproperties, h⟩ := Option.bind_eq_some_iff.mp h
      cases h
      exact .vertex (signed_of_signed64? hid)
        (wellFormed_decodeProperties (wellFormed_head? hw ⟨[_, _], rfl⟩) hproperties)
  · cases h

theorem canonical_edge {value : Json} {e : Edge} (hw : value.WellFormed)
    (h : Edge.ofJson? value = some e) : (edge e).Canonical := by
  unfold Edge.ofJson? at h
  split at h
  · obtain ⟨id, hid, h⟩ := Option.bind_eq_some_iff.mp h
    obtain ⟨label, -, h⟩ := Option.bind_eq_some_iff.mp h
    obtain ⟨startId, hstart, h⟩ := Option.bind_eq_some_iff.mp h
    obtain ⟨endId, hend, h⟩ := Option.bind_eq_some_iff.mp h
    obtain ⟨properties, hproperties, h⟩ := Option.bind_eq_some_iff.mp h
    cases h
    exact .edge (signed_of_bind hid) (signed_of_bind hstart) (signed_of_bind hend)
      (wellFormed_decodeProperties (fun j hj => hw.field hj) hproperties)
  · split at h
    · cases h
    · obtain ⟨id, hid, h⟩ := Option.bind_eq_some_iff.mp h
      obtain ⟨label, -, h⟩ := Option.bind_eq_some_iff.mp h
      obtain ⟨startId, hstart, h⟩ := Option.bind_eq_some_iff.mp h
      obtain ⟨endId, hend, h⟩ := Option.bind_eq_some_iff.mp h
      obtain ⟨properties, hproperties, h⟩ := Option.bind_eq_some_iff.mp h
      cases h
      exact .edge (signed_of_signed64? hid) (signed_of_signed64? hstart) (signed_of_signed64? hend)
        (wellFormed_decodeProperties (wellFormed_head? hw ⟨[_, _, _, _], rfl⟩) hproperties)
  · cases h

theorem ofKind_eq_ok {kind value : Json} {decoded : Except DecodeFault Cell} {c : Cell}
    (h : ofKind kind value decoded = .ok c) :
    (kind = .string vertexWord ∧ ∃ v, Vertex.ofJson? value = some v ∧ c = vertex v) ∨
    (kind = .string edgeWord ∧ ∃ e, Edge.ofJson? value = some e ∧ c = edge e) ∨
    (kind = .string pathWord ∧ decoded = .ok c) := by
  unfold ofKind at h
  split at h
  · split at h
    · next hword =>
      split at h
      · next v hv =>
        cases h
        exact Or.inl ⟨by rw [hword], v, hv, rfl⟩
      · cases h
    · split at h
      · next hword =>
        split at h
        · next e he =>
          cases h
          exact Or.inr (Or.inl ⟨by rw [hword], e, he, rfl⟩)
        · cases h
      · split at h
        · next hword => exact Or.inr (Or.inr ⟨by rw [hword], h⟩)
        · cases h
  · cases h

/-- Only the field named value holds an entity. -/
theorem ofKind_null {kind : Json} {c : Cell} :
    ofKind kind .null (.error .pathNotList) ≠ .ok c := by
  intro h
  rcases ofKind_eq_ok h with ⟨-, v, hv, -⟩ | ⟨-, e, he, -⟩ | ⟨-, hpath⟩
  · cases hv
  · cases he
  · cases hpath

theorem ofMarker_eq_ok {fields : Fields Json} {c : Cell} (hmarker : isMarker fields = true)
    (h : ofMarker fields = .ok c) : ∃ kind value, ofKind kind value (ofPath value) = .ok c ∧
      (fields = [(marker, kind), ("value".toList, value)] ∨
        fields = [("value".toList, value), (marker, kind)]) := by
  unfold ofMarker at h
  split at h
  · next name first other second =>
    split at h
    · next hname =>
      split at h
      · next hother => exact ⟨first, second, h, Or.inl (by rw [hname, hother])⟩
      · exact absurd h ofKind_null
    · next hname =>
      split at h
      · next hvalue =>
        have hother : other = marker := by
          rw [isMarker, Bool.and_eq_true, Fields.has, Fields.find?, if_neg hname, Fields.find?] at hmarker
          by_contra hne
          rw [if_neg hne] at hmarker
          cases hmarker.2
        exact ⟨second, first, h, Or.inr (by rw [hvalue, hother])⟩
      · exact absurd h ofKind_null
  · cases h

/-! ### Values -/

theorem represents_scalar {j : Json} (hw : j.WellFormed) (hu : j.Unmarked) :
    Represents j (scalar j) :=
  ⟨.scalar j, .scalar hw hu, nofun⟩

theorem represents_of_isScalar {j : Json} {c : Cell} (hw : j.WellFormed) (h : ofJson j = .ok c)
    (hc : c.isScalar = true) : Represents j c := by
  have hu := unmarked_of_isScalar j h hc
  rw [ofJson_unmarked hw hu] at h
  cases h
  exact represents_scalar hw hu

/-- The value is decoded to a cell that represents it; and if it is that of a path, the items of the
path represent its items. -/
structure Decodes (j : Json) : Prop where
  cell : ∀ {c}, ofJson j = .ok c → Represents j c
  path : ∀ {c}, ofPath j = .ok c →
    ∃ items cells, j = .array items ∧ c = .path cells ∧ List.Forall₂ Represents items cells

theorem represents_items {items : List Json} (hall : ∀ item ∈ items, Decodes item)
    {cells : List Cell} (h : ofJsonItems items = .ok cells) :
    List.Forall₂ Represents items cells := by
  induction items generalizing cells with
  | nil =>
    cases h
    exact .nil
  | cons item items ih =>
    rw [List.forall_mem_cons] at hall
    rw [ofJsonItems] at h
    obtain ⟨c, hc, h⟩ := Outcome.bind_eq_ok.mp h
    obtain ⟨cells', hcells, h⟩ := Outcome.bind_eq_ok.mp h
    cases h
    exact .cons (hall.1.cell hc) (ih hall.2 hcells)

theorem represents_fields {fields : Fields Json} (hall : ∀ field ∈ fields, Decodes field.2)
    {entries : Fields Cell} (h : ofJsonFields fields = .ok entries) :
    entries.names = fields.names ∧
      List.Forall₂ Represents (fields.map (·.2)) (entries.map (·.2)) := by
  induction fields generalizing entries with
  | nil =>
    cases h
    exact ⟨rfl, .nil⟩
  | cons field fields ih =>
    obtain ⟨name, value⟩ := field
    rw [List.forall_mem_cons] at hall
    rw [ofJsonFields] at h
    obtain ⟨c, hc, h⟩ := Outcome.bind_eq_ok.mp h
    obtain ⟨entries', hentries, h⟩ := Outcome.bind_eq_ok.mp h
    cases h
    obtain ⟨hnames, hvalues⟩ := ih hall.2 hentries
    exact ⟨congrArg (name :: ·) hnames, .cons (hall.1.cell hc) hvalues⟩

theorem canonical_of_represents {js : List Json} {cells : List Cell}
    (h : List.Forall₂ Represents js cells) : ∀ c ∈ cells, c.Canonical := by
  induction h with
  | nil => exact fun c hc => absurd hc List.not_mem_nil
  | cons hfirst _ ih => exact List.forall_mem_cons.mpr ⟨hfirst.canonical, ih⟩

theorem mirrors_of_represents {js : List Json} {cells : List Cell}
    (h : List.Forall₂ Represents js cells) : List.Forall₂ Mirrors js cells :=
  h.imp fun _ _ hpart => hpart.mirrors

theorem exists_holdsEntity {js : List Json} {cells : List Cell}
    (h : List.Forall₂ Represents js cells) (hsome : ¬ cells.all isScalar = true) :
    ∃ c ∈ cells, c.HoldsEntity := by
  induction h with
  | nil => exact absurd rfl hsome
  | @cons j c _ cells hfirst _ ih =>
    by_cases hc : c.isScalar = true
    · rw [List.all_cons, hc, Bool.true_and] at hsome
      obtain ⟨c', hc', hentity⟩ := ih hsome
      exact ⟨c', List.mem_cons_of_mem _ hc', hentity⟩
    · exact ⟨c, List.mem_cons_self, hfirst.entity (Bool.eq_false_iff.mpr hc)⟩

theorem decodes_array {items : List Json} (hw : (Json.array items).WellFormed)
    (hall : ∀ item ∈ items, Decodes item) : Decodes (.array items) where
  cell {c} h := by
    by_cases hc : c.isScalar = true
    · exact represents_of_isScalar hw h hc
    · rw [ofJson] at h
      obtain ⟨cells, hcells, h⟩ := Outcome.bind_eq_ok.mp h
      have hparts := represents_items hall hcells
      cases h
      rw [ofItems] at hc ⊢
      split at hc
      · exact absurd rfl hc
      · next hsome =>
        rw [if_neg hsome]
        have hentity := exists_holdsEntity hparts hsome
        obtain ⟨part, hpart, hholds⟩ := hentity
        exact ⟨.list (mirrors_of_represents hparts),
          .list (canonical_of_represents hparts) ⟨part, hpart, hholds⟩, fun _ => .list hpart hholds⟩
  path h := by
    rw [ofPath] at h
    obtain ⟨cells, hcells, h⟩ := Outcome.bind_eq_ok.mp h
    cases h
    exact ⟨items, cells, rfl, rfl, represents_items hall hcells⟩

theorem represents_marker {fields : Fields Json} (hw : (Json.object fields).WellFormed)
    (hall : ∀ field ∈ fields, Decodes field.2) (hmarker : isMarker fields = true) {c : Cell}
    (h : ofMarker fields = .ok c) : Represents (.object fields) c := by
  obtain ⟨kind, value, hkind, hfields⟩ := ofMarker_eq_ok hmarker h
  have hvalue : value.WellFormed ∧ Decodes value := by
    have hmem : ("value".toList, value) ∈ fields := by
      rcases hfields with rfl | rfl
      · exact List.mem_cons_of_mem _ List.mem_cons_self
      · exact List.mem_cons_self
    exact ⟨Json.wellFormedFields_iff.mp hw.2 _ hmem, hall _ hmem⟩
  have hmarks : ∀ {word : Text}, kind = .string word → Json.Marks word value (.object fields) := by
    rintro word rfl
    rcases hfields with rfl | rfl
    · exact .kindFirst
    · exact .valueFirst
  rcases ofKind_eq_ok hkind with ⟨hword, v, hv, rfl⟩ | ⟨hword, e, he, rfl⟩ | ⟨hword, hpath⟩
  · exact ⟨.vertex (hmarks hword) hv, canonical_vertex hvalue.1 hv, fun _ => .vertex v⟩
  · exact ⟨.edge (hmarks hword) he, canonical_edge hvalue.1 he, fun _ => .edge e⟩
  · obtain ⟨items, cells, rfl, rfl, hparts⟩ := hvalue.2.path hpath
    exact ⟨.path (hmarks hword) (mirrors_of_represents hparts),
      .path (canonical_of_represents hparts), fun _ => .path cells⟩

theorem decodes_object {fields : Fields Json} (hw : (Json.object fields).WellFormed)
    (hall : ∀ field ∈ fields, Decodes field.2) : Decodes (.object fields) where
  cell {c} h := by
    by_cases hc : c.isScalar = true
    · exact represents_of_isScalar hw h hc
    · rw [ofJson] at h
      split at h
      · next hmarker => exact represents_marker hw hall hmarker h
      · next hmarker =>
        obtain ⟨entries, hentries, h⟩ := Outcome.bind_eq_ok.mp h
        obtain ⟨hnames, hparts⟩ := represents_fields hall hentries
        cases h
        rw [ofEntries] at hc ⊢
        split at hc
        · exact absurd rfl hc
        · next hsome =>
          rw [if_neg hsome]
          have hsome' : ¬ (entries.map (·.2)).all isScalar = true := by rwa [List.all_map]
          obtain ⟨part, hpart, hholds⟩ := exists_holdsEntity hparts hsome'
          obtain ⟨entry, hentry, rfl⟩ := List.mem_map.mp hpart
          have hnot : ¬ Fields.LikeMarker entries := fun hlike =>
            not_likeMarker_of_isMarker (by simpa using hmarker) (hlike.of_names hnames)
          refine ⟨.map hnames (mirrors_of_represents hparts), .map ?_ hnot ?_ ⟨entry, hentry, hholds⟩,
            fun _ => .map hentry hholds⟩
          · rw [hnames]
            exact hw.1
          · exact List.forall_mem_map.mp (canonical_of_represents hparts)
  path h := by
    unfold ofPath at h
    cases h

mutual

theorem decodes : (j : Json) → j.WellFormed → Decodes j
  | .null, hw | .bool _, hw | .number _, hw | .string _, hw =>
    ⟨fun h => by cases h; exact represents_scalar hw (by constructor), nofun⟩
  | .array items, hw => decodes_array hw (decodes_items items (Json.wellFormedItems_iff.mp hw))
  | .object fields, hw => decodes_object hw (decodes_fields fields (Json.wellFormedFields_iff.mp hw.2))

theorem decodes_items : (items : List Json) → (∀ item ∈ items, item.WellFormed) →
    ∀ item ∈ items, Decodes item
  | [], _ => fun _ h => absurd h List.not_mem_nil
  | item :: items, hw =>
    have hall := List.forall_mem_cons.mp hw
    List.forall_mem_cons.mpr ⟨decodes item hall.1, decodes_items items hall.2⟩

theorem decodes_fields : (fields : List (Text × Json)) → (∀ field ∈ fields, field.2.WellFormed) →
    ∀ field ∈ fields, Decodes field.2
  | [], _ => fun _ h => absurd h List.not_mem_nil
  | (_, value) :: fields, hw =>
    have hall := List.forall_mem_cons.mp hw
    List.forall_mem_cons.mpr ⟨decodes value hall.1, decodes_fields fields hall.2⟩

end

/-! ### Where marker objects are -/

inductive InProperties (value : Json) : Cell → List Json.Step → Prop where
  | here {c properties place} : c.properties? = some properties →
      (Json.object properties).at? place = some value → InProperties value c place
  | part {c step part place} : c.part? step = some part → InProperties value part place →
      InProperties value c (step :: place)

theorem unmarked_part? {j part : Json} {step : Json.Step} (hj : j.Unmarked)
    (h : j.part? step = some part) : part.Unmarked := by
  cases hj with
  | null | bool | number | string => cases step <;> cases h
  | array hitems =>
    cases step with
    | item n => exact hitems part (List.mem_of_getElem? h)
    | field name => cases h
  | object _ hfields =>
    cases step with
    | item n => cases h
    | field name => exact hfields _ (Fields.mem_of_find? h)

theorem unmarked_at? {j value : Json} {place : List Json.Step} (hj : j.Unmarked)
    (h : j.at? place = some value) : value.Unmarked := by
  induction place generalizing j with
  | nil =>
    cases h
    exact hj
  | cons step place ih =>
    obtain ⟨part, hpart, h⟩ := Option.bind_eq_some_iff.mp h
    exact ih (unmarked_part? hj hpart) h

theorem at?_items {items : List Cell} {place : List Json.Step} {fields : Fields Json}
    (h : (Json.array (toJsonItems items)).at? place = some (.object fields)) :
    ∃ n item rest, place = .item n :: rest ∧ items[n]? = some item ∧
      item.toJson.at? rest = some (.object fields) := by
  cases place with
  | nil => cases h
  | cons step rest =>
    obtain ⟨part, hpart, h⟩ := Option.bind_eq_some_iff.mp h
    cases step with
    | item n =>
      rw [Json.part?, toJsonItems_eq_map, List.getElem?_map] at hpart
      obtain ⟨item, hitem, rfl⟩ := Option.map_eq_some_iff.mp hpart
      exact ⟨n, item, rest, rfl, hitem, h⟩
    | field name => cases hpart

/-- What looks like a marker object when the cell is written as JSON is in the properties of an
entity. -/
theorem inProperties_of_likeMarker {c : Cell} (hc : c.Canonical) {place : List Json.Step}
    {fields : Fields Json} (h : c.toJson.at? place = some (.object fields))
    (hlike : fields.LikeMarker) : InProperties (.object fields) c place := by
  induction hc generalizing place with
  | scalar _ hu =>
    cases unmarked_at? hu h with
    | object hnot _ => exact absurd hlike hnot
  | vertex => exact .here rfl h
  | edge => exact .here rfl h
  | path _ ih =>
    obtain ⟨n, item, rest, rfl, hitem, hrest⟩ := at?_items h
    exact .part hitem (ih item (List.mem_of_getElem? hitem) hrest)
  | list _ _ ih =>
    obtain ⟨n, item, rest, rfl, hitem, hrest⟩ := at?_items h
    exact .part hitem (ih item (List.mem_of_getElem? hitem) hrest)
  | @map entries hnames hnot _ _ ih =>
    rw [toJson_map hnames] at h
    cases place with
    | nil =>
      cases h
      exact absurd (hlike.of_names (names_toJsonEntries entries)) hnot
    | cons step rest =>
      obtain ⟨part, hpart, h⟩ := Option.bind_eq_some_iff.mp h
      cases step with
      | item n => cases hpart
      | field name =>
        rw [Json.part?, toJsonEntries_eq_map, Fields.find?_map] at hpart
        obtain ⟨entry, hentry, rfl⟩ := Option.map_eq_some_iff.mp hpart
        exact .part hentry (ih _ (Fields.mem_of_find? hentry) h)

/-! ### What is received -/

/-- The cell is what the text says: its parts are those of the value that the text is one of without
the annotations, and they stand in the same order. -/
structure Received (s : Text) (c : Cell) : Prop where
  thinned : Thinned s (plainText s)
  mirrors : ∃ j, Json.Spelled j (plainText s) ∧ Mirrors j c
  canonical : c.Canonical
  hydrated : Hydrated c c.toJson
  marked : ∀ place (fields : Fields Json), c.toJson.at? place = some (.object fields) →
    fields.LikeMarker → InProperties (.object fields) c place

/-- What is decoded is in canonical form and in the order of the text, and so is its JSON. -/
theorem received_of_ofText {s : Text} {c : Cell} (h : ofText s = .ok c) : Received s c := by
  unfold ofText at h
  split at h
  · cases h
  · next j hread =>
    split at h
    · next cell hcell =>
      cases h
      have hspelled := Json.spelled_of_read hread
      obtain ⟨hmirrors, hcanonical, -⟩ := (decodes j hspelled.wellFormed).cell hcell
      exact ⟨thinned_plainText s, ⟨j, hspelled, hmirrors⟩, hcanonical, hydrated_toJson hcanonical,
        fun _ _ => inProperties_of_likeMarker hcanonical⟩
    · cases h

/-- A name that comes again, annotations where they mean nothing, and an annotated group in the
properties of a vertex. -/
def tangledText : Text :=
  "\x7b\"b\":1, \"a\":[2::vertex,\x7b\"id\":1,\"label\":\"T\",\"properties\":\x7b\"p\":\x7b\"x\":3\x7d::edge\x7d\x7d::vertex ::numeric,\x7b\"k\":[4]\x7d], \"b\":[]::path\x7d"

def tangledProperties : Fields Json :=
  [("p", .object [(marker, .string "edge"), ("value", .object [("x", .ofInt 3)])])]

def tangled : Cell :=
  .map [("b", .path []), ("a", .list [.scalar (.ofInt 2), .vertex ⟨1, "T", tangledProperties⟩,
    .scalar (.object [("k", .array [.ofInt 4])])])]

def tangledValue : Json :=
  .object [("b", wrapped pathWord (.array [])), ("a", .array [.ofInt 2, wrapped vertexWord
    (.object [("id", .ofInt 1), ("label", .string "T"), ("properties", .object tangledProperties)]),
    .object [("k", .array [.ofInt 4])]])]

theorem tangled_is_received : ofText tangledText = .ok tangled ∧ Received tangledText tangled := by
  have hvalue : Json.read maxDepth (plainText tangledText) = some tangledValue := by decide +kernel
  have hread : ofText tangledText = .ok tangled := by
    unfold ofText
    rw [hvalue]
    rfl
  exact ⟨hread, received_of_ofText hread⟩

end Cell
end TwinGraph
