import TwinGraph.Proofs.Agtype.Printed

/-! A cell is read back from each of its texts, if it is told apart by its text: plain data stands
in one piece, and nothing but an entity looks like a marker object. -/
namespace TwinGraph

open Agtype
open Json (WellFormed Written)

/-- Two fields, one of them with the name that is reserved for markers. -/
def Fields.LikeMarker {α : Type} (fields : Fields α) : Prop :=
  fields.length = 2 ∧ marker ∈ fields.names

instance {α : Type} (fields : Fields α) : Decidable fields.LikeMarker :=
  inferInstanceAs (Decidable (_ ∧ _))

theorem Fields.LikeMarker.of_names {α β : Type} {fields : Fields α} {others : Fields β}
    (h : fields.LikeMarker) (hnames : fields.names = others.names) : others.LikeMarker := by
  obtain ⟨hlength, hmem⟩ := h
  have hlengths := congrArg List.length hnames
  rw [Fields.names, Fields.names, List.length_map, List.length_map] at hlengths
  exact ⟨hlengths ▸ hlength, hnames ▸ hmem⟩

/-- No object in the value looks like a marker object. -/
inductive Json.Unmarked : Json → Prop where
  | null : Unmarked null
  | bool (b) : Unmarked (bool b)
  | number (n) : Unmarked (number n)
  | string (s) : Unmarked (string s)
  | array {items} : (∀ item ∈ items, Unmarked item) → Unmarked (array items)
  | object {fields : Fields Json} : ¬ fields.LikeMarker → (∀ field ∈ fields, Unmarked field.2) →
      Unmarked (object fields)

def Signed (n : Int) : Prop := -0x8000000000000000 ≤ n ∧ n < 0x8000000000000000

instance (n : Int) : Decidable (Signed n) := inferInstanceAs (Decidable (_ ∧ _))

namespace Cell

inductive HoldsEntity : Cell → Prop where
  | vertex (v) : HoldsEntity (vertex v)
  | edge (e) : HoldsEntity (edge e)
  | path (items) : HoldsEntity (path items)
  | list {items item} : item ∈ items → HoldsEntity item → HoldsEntity (list items)
  | map {entries entry} : entry ∈ entries → HoldsEntity entry.2 → HoldsEntity (map entries)

/-- What the decoder can give: plain data in one piece, names and ids as the store has them. -/
inductive Canonical : Cell → Prop where
  | scalar {j : Json} : j.WellFormed → j.Unmarked → Canonical (scalar j)
  | vertex {v : Vertex} : Signed v.id → (Json.object v.properties).WellFormed →
      Canonical (vertex v)
  | edge {e : Edge} : Signed e.id → Signed e.startId → Signed e.endId →
      (Json.object e.properties).WellFormed → Canonical (edge e)
  | path {items} : (∀ item ∈ items, Canonical item) → Canonical (path items)
  | list {items} : (∀ item ∈ items, Canonical item) → (∃ item ∈ items, HoldsEntity item) →
      Canonical (list items)
  | map {entries : Fields Cell} : entries.names.Nodup → ¬ entries.LikeMarker →
      (∀ entry ∈ entries, Canonical entry.2) → (∃ entry ∈ entries, HoldsEntity entry.2) →
      Canonical (map entries)

/-- Every entity, however deep, is replaced by its properties. -/
inductive Hydrated : Cell → Json → Prop where
  | scalar (j) : Hydrated (scalar j) j
  | vertex (v) : Hydrated (vertex v) (.object v.properties)
  | edge (e) : Hydrated (edge e) (.object e.properties)
  | path {items js} : List.Forall₂ Hydrated items js → Hydrated (path items) (.array js)
  | list {items js} : List.Forall₂ Hydrated items js → Hydrated (list items) (.array js)
  | map {entries : Fields Cell} {js} : List.Forall₂ Hydrated (entries.map (·.2)) js →
      Hydrated (map entries) (.object (entries.names.zip js))

theorem HoldsEntity.not_scalar {c : Cell} (h : c.HoldsEntity) : c.isScalar = false := by
  cases h <;> rfl

theorem isMarker_eq_false {fields : Fields Json} (h : ¬ fields.LikeMarker) :
    isMarker fields = false := by
  unfold isMarker
  rw [Bool.and_eq_false_iff]
  by_cases hlength : fields.length = 2
  · right
    have hnot : marker ∉ fields.names := fun hmem => h ⟨hlength, hmem⟩
    rw [Fields.has, Fields.find?_eq_none.mpr hnot]
    rfl
  · left
    simpa using hlength

theorem ofJsonItems_eq {js : List Json} {cs : List Cell}
    (h : List.Forall₂ (fun j c => ofJson j = .ok c) js cs) : ofJsonItems js = .ok cs := by
  induction h with
  | nil => rfl
  | cons hfirst _ ih =>
    rw [ofJsonItems, hfirst, ih]
    rfl

theorem ofJsonFields_eq {fields : Fields Json} {entries : Fields Cell}
    (h : List.Forall₂ (fun field entry => field.1 = entry.1 ∧ ofJson field.2 = .ok entry.2)
      fields entries) : ofJsonFields fields = .ok entries := by
  induction h with
  | nil => rfl
  | @cons field entry _ _ hfirst _ ih =>
    obtain ⟨name, value⟩ := field
    obtain ⟨hname, hvalue⟩ := hfirst
    rw [ofJsonFields, hvalue, ih]
    subst hname
    rfl

theorem toJsonItems_eq_map (items : List Cell) : toJsonItems items = items.map toJson := by
  induction items with
  | nil => rfl
  | cons item items ih => rw [toJsonItems, ih, List.map_cons]

theorem toJsonEntries_eq_map (entries : List (Text × Cell)) :
    toJsonEntries entries = entries.map fun entry => (entry.1, entry.2.toJson) := by
  induction entries with
  | nil => rfl
  | cons entry entries ih => rw [toJsonEntries, ih, List.map_cons]

theorem names_toJsonEntries (entries : Fields Cell) :
    Fields.names (toJsonEntries entries) = entries.names := by
  rw [toJsonEntries_eq_map, Fields.names, List.map_map]
  rfl

theorem toJson_map {entries : Fields Cell} (hnames : entries.names.Nodup) :
    (map entries).toJson = .object (toJsonEntries entries) := by
  rw [toJson, Fields.ofList_of_nodup]
  rwa [names_toJsonEntries]

theorem ofItems_scalars (items : List Json) :
    ofItems (items.map scalar) = scalar (.array items) := by
  have hall : (items.map scalar).all isScalar = true := by
    simp [isScalar]
  have hback : (items.map scalar).map toJson = items := by
    rw [List.map_map]
    exact List.map_id _
  rw [ofItems, if_pos hall, toJsonItems_eq_map, hback]

theorem ofEntries_scalars {fields : Fields Json} (h : fields.names.Nodup) :
    ofEntries (fields.map fun field => (field.1, scalar field.2)) = scalar (.object fields) := by
  have hall : (fields.map fun field => (field.1, scalar field.2)).all (·.2.isScalar) = true := by
    simp [isScalar]
  have hback : (fields.map fun field => (field.1, scalar field.2)).map
      (fun entry => (entry.1, entry.2.toJson)) = fields := by
    rw [List.map_map]
    exact List.map_id _
  rw [ofEntries, if_pos hall, toJsonEntries_eq_map, hback, Fields.ofList_of_nodup h]

theorem ofJson_unmarked {j : Json} (hw : j.WellFormed) (hu : j.Unmarked) :
    ofJson j = .ok (scalar j) := by
  induction hu with
  | null | bool | number | string => rfl
  | @array items _ ih =>
    have hitems := Json.wellFormedItems_iff.mp hw
    have hread : ofJsonItems items = .ok (items.map scalar) := by
      refine ofJsonItems_eq ?_
      rw [List.forall₂_map_right_iff, List.forall₂_same]
      exact fun item hitem => ih item hitem (hitems item hitem)
    rw [ofJson, hread]
    exact congrArg Except.ok (ofItems_scalars items)
  | @object fields hnot _ ih =>
    have hfields := Json.wellFormedFields_iff.mp hw.2
    have hread : ofJsonFields fields = .ok (fields.map fun field => (field.1, scalar field.2)) := by
      refine ofJsonFields_eq ?_
      rw [List.forall₂_map_right_iff, List.forall₂_same]
      exact fun field hfield => ⟨rfl, ih field hfield (hfields field hfield)⟩
    rw [ofJson, if_neg (by rw [isMarker_eq_false hnot]; exact Bool.false_ne_true), hread]
    exact congrArg Except.ok (ofEntries_scalars hw.1)

end Cell

theorem Json.signed64?_ofInt {n : Int} (h : Signed n) : (Json.ofInt n).signed64? = some n := by
  have hfits : Number.Fits n := ⟨h.1, by have := h.2; omega⟩
  rw [Json.ofInt, dif_pos hfits]
  exact if_pos h.2

theorem Json.ofInt_wellFormed (n : Int) : (Json.ofInt n).WellFormed := by
  unfold Json.ofInt
  split <;> exact trivial

theorem Vertex.wellFormed_body {v : Vertex} (h : (Json.object v.properties).WellFormed) :
    (Json.object v.body).WellFormed := by
  refine ⟨?_, Json.ofInt_wellFormed _, trivial, h, trivial⟩
  show ["id".toList, "label".toList, "properties".toList].Nodup
  decide

theorem Edge.wellFormed_body {e : Edge} (h : (Json.object e.properties).WellFormed) :
    (Json.object e.body).WellFormed := by
  refine ⟨?_, Json.ofInt_wellFormed _, trivial, Json.ofInt_wellFormed _, Json.ofInt_wellFormed _,
    h, trivial⟩
  show ["id".toList, "label".toList, "end_id".toList, "start_id".toList, "properties".toList].Nodup
  decide

theorem Vertex.ofJson?_body {v : Vertex} (h : Signed v.id) :
    Vertex.ofJson? (.object v.body) = some v := by
  simp [Vertex.ofJson?, Vertex.body, Fields.find?, Json.signed64?_ofInt h, Json.string?,
    decodeProperties]

theorem Edge.ofJson?_body {e : Edge} (h : Signed e.id) (hstart : Signed e.startId)
    (hend : Signed e.endId) : Edge.ofJson? (.object e.body) = some e := by
  simp [Edge.ofJson?, Edge.body, Fields.find?, Json.signed64?_ofInt h,
    Json.signed64?_ofInt hstart, Json.signed64?_ofInt hend, Json.string?, decodeProperties]

namespace Cell

theorem ofJson_wrapped (word : Text) (j : Json) :
    ofJson (wrapped word j) = ofKind (.string word) j (ofPath j) := by
  have hmarker : isMarker [(marker, .string word), ("value", j)] = true := by
    simp [isMarker, Fields.has, Fields.find?]
  rw [wrapped, ofJson, if_pos hmarker, ofMarker, if_pos rfl, if_pos rfl]

theorem ofItems_list {items : List Cell} (h : ∃ item ∈ items, HoldsEntity item) :
    ofItems items = list items := by
  obtain ⟨item, hmem, hentity⟩ := h
  refine if_neg fun hall => ?_
  have hscalar := List.all_eq_true.mp hall item hmem
  rw [hentity.not_scalar] at hscalar
  cases hscalar

theorem ofEntries_map {entries : Fields Cell} (h : ∃ entry ∈ entries, HoldsEntity entry.2) :
    ofEntries entries = map entries := by
  obtain ⟨entry, hmem, hentity⟩ := h
  refine if_neg fun hall => ?_
  have hscalar := List.all_eq_true.mp hall entry hmem
  rw [hentity.not_scalar] at hscalar
  cases hscalar

theorem names_markedEntries (entries : Fields Cell) :
    Fields.names (markedEntries entries) = entries.names := by
  rw [markedEntries_eq_map, Fields.names, List.map_map]
  rfl

theorem ofJsonItems_marked {items : List Cell} (h : ∀ item ∈ items, ofJson item.marked = .ok item) :
    ofJsonItems (markedItems items) = .ok items := by
  refine ofJsonItems_eq ?_
  rw [markedItems_eq_map, List.forall₂_map_left_iff, List.forall₂_same]
  exact h

theorem ofJson_marked {v : Cell} (hv : v.Canonical) : ofJson v.marked = .ok v := by
  induction hv with
  | scalar hw hu => exact ofJson_unmarked hw hu
  | vertex hid _ =>
    rw [marked, ofJson_wrapped, ofKind, if_pos rfl, Vertex.ofJson?_body hid]
  | edge hid hstart hend _ =>
    rw [marked, ofJson_wrapped, ofKind, if_neg (by decide), if_pos rfl,
      Edge.ofJson?_body hid hstart hend]
  | path _ ih =>
    rw [marked, ofJson_wrapped, ofKind, if_neg (by decide), if_neg (by decide), if_pos rfl,
      ofPath, ofJsonItems_marked ih]
    rfl
  | list _ hentity ih =>
    rw [marked, ofJson, ofJsonItems_marked ih]
    exact congrArg Except.ok (ofItems_list hentity)
  | @map entries _ hnot _ hentity ih =>
    have hmarker : ¬ Fields.LikeMarker (markedEntries entries) := fun hlike =>
      hnot (hlike.of_names (names_markedEntries entries))
    have hread : ofJsonFields (markedEntries entries) = .ok entries := by
      refine ofJsonFields_eq ?_
      rw [markedEntries_eq_map, List.forall₂_map_left_iff, List.forall₂_same]
      exact fun entry hentry => ⟨rfl, ih entry hentry⟩
    rw [marked, ofJson, if_neg (by rw [isMarker_eq_false hmarker]; exact Bool.false_ne_true), hread]
    exact congrArg Except.ok (ofEntries_map hentity)

theorem wellFormed_wrapped {j : Json} (h : j.WellFormed) (word : Text) :
    (wrapped word j).WellFormed := by
  refine ⟨?_, trivial, h, trivial⟩
  show [marker, "value".toList].Nodup
  decide

theorem wellFormed_markedItems {items : List Cell} (h : ∀ item ∈ items, item.marked.WellFormed) :
    (Json.array (markedItems items)).WellFormed := by
  refine Json.wellFormedItems_iff.mpr ?_
  rw [markedItems_eq_map, List.forall_mem_map]
  exact h

theorem wellFormed_marked {v : Cell} (hv : v.Canonical) : v.marked.WellFormed := by
  induction hv with
  | scalar hw _ => exact hw
  | vertex _ hproperties => exact wellFormed_wrapped (Vertex.wellFormed_body hproperties) _
  | edge _ _ _ hproperties => exact wellFormed_wrapped (Edge.wellFormed_body hproperties) _
  | path _ ih => exact wellFormed_wrapped (wellFormed_markedItems ih) _
  | list _ _ ih => exact wellFormed_markedItems ih
  | map hnames _ _ _ ih =>
    refine ⟨by rw [names_markedEntries]; exact hnames, Json.wellFormedFields_iff.mpr ?_⟩
    rw [markedEntries_eq_map, List.forall_mem_map]
    exact ih

theorem hydrated_items {items : List Cell} (h : ∀ item ∈ items, Hydrated item item.toJson) :
    List.Forall₂ Hydrated items (toJsonItems items) := by
  rw [toJsonItems_eq_map, List.forall₂_map_right_iff, List.forall₂_same]
  exact h

theorem hydrated_toJson {v : Cell} (hv : v.Canonical) : Hydrated v v.toJson := by
  induction hv with
  | scalar => exact .scalar _
  | vertex => exact .vertex _
  | edge => exact .edge _
  | path _ ih => exact .path (hydrated_items ih)
  | list _ _ ih => exact .list (hydrated_items ih)
  | @map entries hnames _ _ _ ih =>
    have hall : List.Forall₂ Hydrated (entries.map (·.2)) (entries.map (·.2.toJson)) := by
      rw [List.forall₂_map_left_iff, List.forall₂_map_right_iff, List.forall₂_same]
      exact ih
    have hzip : entries.names.zip (entries.map (·.2.toJson)) = toJsonEntries entries := by
      rw [toJsonEntries_eq_map, Fields.names, List.zip_map']
    rw [toJson_map hnames, ← hzip]
    exact .map hall

/-- A cell is read back from each of its texts, as long as the brackets of its marked form are not
nested too deep; and what it becomes as JSON is the cell with the properties in place of each
entity. -/
theorem ofText_printed {v : Cell} {s : Text} (hv : v.Canonical) (hs : v.Printed s)
    (hdepth : v.marked.nesting ≤ maxDepth) : ofText s = .ok v ∧ Hydrated v v.toJson := by
  obtain ⟨t, ht, hyields⟩ := printed_unwraps v s hs
  have hread : Json.read maxDepth t = some v.marked :=
    Json.read_written (wellFormed_marked hv) ht hdepth
  refine ⟨?_, hydrated_toJson hv⟩
  unfold ofText
  rw [plainText_of_yields hyields, hread]
  dsimp only
  rw [ofJson_marked hv]

/-- A vertex whose id looks like the end of a vertex, in a list beside a number and a path. -/
def visit : Cell :=
  .map [("seen", .list [.vertex ⟨7, "Twin", [("$dtId", .string "\x7d::vertex"), ("n", .ofInt 1)]⟩,
    .path [.edge ⟨9, "has", 7, 7, []⟩], .scalar (.ofInt 2)])]

def visitText : Text :=
  "\x7b\"seen\": [\x7b\"id\": 7, \"label\": \"Twin\", \"properties\": \x7b\"$dtId\": \"\x7d::vertex\", \"n\": 1::numeric\x7d\x7d::vertex, [\x7b\"id\": 9, \"label\": \"has\", \"end_id\": 7, \"start_id\": 7, \"properties\": \x7b\x7d\x7d::edge]::path, 2]\x7d"

theorem canonical_visit : visit.Canonical := by
  have hvertex : Canonical (.vertex ⟨7, "Twin", [("$dtId", .string "\x7d::vertex"),
      ("n", .ofInt 1)]⟩) := .vertex (by decide) (by decide)
  have hedge : Canonical (.edge ⟨9, "has", 7, 7, []⟩) :=
    .edge (by decide) (by decide) (by decide) (by decide)
  have hnumber : Canonical (.scalar (.ofInt 2)) := .scalar (by decide) (.number _)
  refine .map (by decide) (by decide) ?_ ⟨_, List.mem_cons_self, ?_⟩
  · rw [List.forall_mem_singleton]
    refine .list ?_ ⟨_, List.mem_cons_self, .vertex _⟩
    rw [List.forall_mem_cons, List.forall_mem_cons, List.forall_mem_singleton]
    refine ⟨hvertex, .path ?_, hnumber⟩
    rw [List.forall_mem_singleton]
    exact hedge
  · exact .list List.mem_cons_self (.vertex _)

theorem printed_visit : visit.Printed visitText := by
  have hgap : Json.Gap [' '] := by
    intro c hc
    rw [List.mem_singleton.mp hc]
    rfl
  have hone : Written Numeric (.ofInt 1) _ := .number (.whole 1 (by decide)) (Or.inr rfl)
  have htwo : Written Numeric (.ofInt 2) _ := .number (.whole 2 (by decide)) (Or.inl rfl)
  have hseven : Written Numeric (.ofInt 7) _ := .number (.whole 7 (by decide)) (Or.inl rfl)
  have hnine : Written Numeric (.ofInt 9) _ := .number (.whole 9 (by decide)) (Or.inl rfl)
  have hproperties : Written Numeric
      (.object [("$dtId", .string "\x7d::vertex"), ("n", .ofInt 1)]) _ :=
    .object (.cons (.field hgap (.string _)) (.cons hgap (.field hgap hone) .nil))
  have hvertex : Printed (.vertex ⟨7, "Twin", [("$dtId", .string "\x7d::vertex"),
      ("n", .ofInt 1)]⟩) _ :=
    .vertex (.object (.cons (.field hgap hseven) (.cons hgap (.field hgap (.string _))
      (.cons hgap (.field hgap hproperties) .nil))))
  have hedge : Printed (.edge ⟨9, "has", 7, 7, []⟩) _ :=
    .edge (.object (.cons (.field hgap hnine) (.cons hgap (.field hgap (.string _))
      (.cons hgap (.field hgap hseven) (.cons hgap (.field hgap hseven)
        (.cons hgap (.field hgap (.object .nil)) .nil))))))
  have hall : ∃ s, Printed visit s ∧ s = visitText :=
    ⟨_, .map (.cons (.field hgap (.list (.cons hvertex (.cons hgap (.path (.cons hedge .nil))
      (.cons hgap (.scalar htwo) .nil))))) .nil), by decide +kernel⟩
  obtain ⟨_, h, heq⟩ := hall
  rwa [heq] at h

theorem visit_reads_back : visit.Canonical ∧ visit.Printed visitText ∧
    visit.marked.nesting ≤ maxDepth ∧ ofText visitText = .ok visit ∧
    Hydrated visit visit.toJson :=
  ⟨canonical_visit, printed_visit, by decide,
    ofText_printed canonical_visit printed_visit (by decide)⟩

end Cell
end TwinGraph
