import TwinGraph.Proofs.Model.SameDeclaration

/-! What the declarations of known documents hold: each is read from the document of its id, and
the values in it are values of documents. -/
namespace TwinGraph

open Outcome

namespace Schema

theorem requiredPart_eq_ok {schemaType part : Text} {schema value : Json} :
    requiredPart schemaType part schema = .ok value ↔ schema.field? part = some value := by
  unfold requiredPart
  split <;> simp_all

theorem readEnumValue_wellFormed {entry : Json} {v : EnumValue} (hw : entry.WellFormed)
    (h : readEnumValue entry = .ok v) : v.value.WellFormed := by
  unfold readEnumValue at h
  split at h
  · next hv =>
    cases h
    exact hw.field hv
  · simp at h

/-- A document whose reusable schemas are values of documents gives schemas of such values. -/
theorem readWithin_wellFormed {reusable : Text → Option Json}
    (hr : ∀ name definition, reusable name = some definition → definition.WellFormed)
    (levels : Nat) {value : Json} {schema : Schema} (hw : value.WellFormed)
    (h : readWithin reusable levels value = .ok schema) : schema.WellFormed := by
  induction levels generalizing value schema with
  | zero => simp [readWithin] at h
  | succ levels ih =>
    unfold readWithin at h
    split at h
    · split at h
      · cases h; trivial
      · split at h
        · next hd => exact ih (hr _ _ hd) h
        · simp at h
    · simp only at h
      split at h
      · obtain ⟨_, -, h⟩ := bind_eq_ok.mp h
        obtain ⟨type, -, h⟩ := bind_eq_ok.mp h
        obtain ⟨values, hv, h⟩ := bind_eq_ok.mp h
        obtain ⟨read, hread, h⟩ := bind_eq_ok.mp h
        obtain rfl := pure_eq_ok.mp h
        intro v hm
        obtain ⟨entry, he, hentry⟩ := mem_of_mapM hread v hm
        exact readEnumValue_wellFormed ((hw.field (requiredPart_eq_ok.mp hv)).items entry he) hentry
      · split at h
        · obtain ⟨parts, hp, h⟩ := bind_eq_ok.mp h
          obtain ⟨read, hread, h⟩ := bind_eq_ok.mp h
          obtain rfl := pure_eq_ok.mp h
          refine wellFormedFields_iff.mpr fun field hm => ?_
          obtain ⟨entry, he, hentry⟩ := mem_of_mapM hread field hm
          have hwe := (hw.field (requiredPart_eq_ok.mp hp)).items entry he
          split at hentry
          · cases hentry
          · split at hentry
            · cases hentry
            · next hs =>
              obtain ⟨s, hs', hentry⟩ := bind_eq_ok.mp hentry
              obtain rfl := pure_eq_ok.mp hentry
              exact ih (hwe.field hs) hs'
        · split at h
          · obtain ⟨part, hp, h⟩ := bind_eq_ok.mp h
            obtain ⟨s, hs, h⟩ := bind_eq_ok.mp h
            obtain rfl := pure_eq_ok.mp h
            exact (ih (hw.field (requiredPart_eq_ok.mp hp)) hs : s.WellFormed)
          · split at h
            · obtain ⟨part, hp, h⟩ := bind_eq_ok.mp h
              split at h
              · cases h
              · next hs =>
                obtain ⟨s, hs', h⟩ := bind_eq_ok.mp h
                obtain rfl := pure_eq_ok.mp h
                exact (ih ((hw.field (requiredPart_eq_ok.mp hp)).field hs) hs' : s.WellFormed)
            · cases h
    · simp at h
end Schema

namespace Content

theorem readSchema_wellFormed {interface word name : Text} {reusable : Text → Option Json}
    {entry : Json} {schema : Schema}
    (hr : ∀ name definition, reusable name = some definition → definition.WellFormed)
    (hw : entry.WellFormed) (h : readSchema interface reusable word name entry = .ok schema) :
    schema.WellFormed := by
  unfold readSchema at h
  split at h
  · next hs => exact Schema.readWithin_wellFormed hr _ (hw.field hs) h
  · cases h

theorem read_wellFormed {interface : Text} {reusable : Text → Option Json} {entry : Json}
    {content : Content}
    (hr : ∀ name definition, reusable name = some definition → definition.WellFormed)
    (hw : entry.WellFormed) (h : read interface reusable entry = .ok content) :
    content.WellFormed := by
  unfold read at h
  split at h
  · cases h
  · split at h
    · cases h
    · split at h
      · obtain ⟨schema, hs, h⟩ := bind_eq_ok.mp h
        obtain rfl := pure_eq_ok.mp h
        exact (readSchema_wellFormed hr hw hs : schema.WellFormed)
      · split at h
        · obtain ⟨schema, hs, h⟩ := bind_eq_ok.mp h
          obtain rfl := pure_eq_ok.mp h
          exact (readSchema_wellFormed hr hw hs : schema.WellFormed)
        · split at h
          · cases h; trivial
          · split at h
            · split at h
              · cases h; trivial
              · cases h
            · cases h; trivial

theorem read_component {interface component : Text} {reusable : Text → Option Json} {entry : Json}
    {content : Content} (h : read interface reusable entry = .ok content)
    (hkind : content.kind = .component component) :
    (Document.typeNames entry).contains "Component" = true ∧
      entry.stringField? "schema" = some component := by
  unfold read at h
  split at h
  · cases h
  · split at h
    · cases h
    · next word hword =>
      split at h
      · obtain ⟨schema, -, h⟩ := bind_eq_ok.mp h
        obtain rfl := pure_eq_ok.mp h
        cases hkind
      · split at h
        · obtain ⟨schema, -, h⟩ := bind_eq_ok.mp h
          obtain rfl := pure_eq_ok.mp h
          cases hkind
        · split at h
          · cases h
            cases hkind
          · split at h
            · next hcomponent =>
              subst hcomponent
              split at h
              · next hschema =>
                cases h
                cases hkind
                exact ⟨List.contains_iff_mem.mpr (List.mem_of_find?_eq_some hword), hschema⟩
              · cases h
            · cases h
              cases hkind

end Content

def Document.schemas (document : Json) : List Json :=
  ((document.field? "schemas").bind Json.items?).getD []

/-- Of several items with one key the last one counts. -/
theorem foldl_insert_find? {α : Type} (key : α → Option Text) (items : List α)
    (start : Directory α) (name : Text) :
    (items.foldl (fun found item =>
      match key item with
      | some id => found.insert id item
      | none => found) start).find? name =
      (items.reverse.find? fun item => key item == some name).or (start.find? name) := by
  induction items generalizing start with
  | nil => rfl
  | cons item items ih =>
    rw [List.foldl_cons, ih, List.reverse_cons, List.find?_append, Option.or_assoc]
    congr 1
    cases hid : key item with
    | none => simp [hid]
    | some id => by_cases hn : id = name <;> simp [hid, hn]

theorem reusableSchemas_find? (known : Directory Json) (name : Text) :
    (reusableSchemas known).find? name =
      (known.values.flatMap Document.schemas).reverse.find?
        fun schema => schema.stringField? "@id" == some name := by
  refine (foldl_insert_find? (Json.stringField? "@id") _ _ name).trans ?_
  rw [Directory.find?_empty, Option.or_none]
  rfl

theorem reusableSchemas_wellFormed {known : Directory Json}
    (hw : ∀ id document, known.find? id = some document → document.WellFormed)
    {name : Text} {definition : Json} (h : (reusableSchemas known).find? name = some definition) :
    definition.WellFormed := by
  rw [reusableSchemas_find?] at h
  have hm := List.mem_reverse.mp (List.mem_of_find?_eq_some h)
  obtain ⟨document, hd, hm⟩ := List.mem_flatMap.mp hm
  obtain ⟨id, hid⟩ := Directory.mem_values.mp hd
  exact (hw id document hid).itemsAt _ definition hm

theorem foldlM_insert_ok {ε α β : Type} {f : Text → α → Except ε β} {entries : List (Text × α)}
    (h : ∀ entry ∈ entries, ∃ b, f entry.1 entry.2 = .ok b) (start : Directory β) :
    ∃ result, entries.foldlM (fun d (id, a) => do return d.insert id (← f id a)) start
      = .ok result := by
  induction entries generalizing start with
  | nil => exact ⟨start, rfl⟩
  | cons entry entries ih =>
    obtain ⟨b, hb⟩ := h entry List.mem_cons_self
    obtain ⟨result, hr⟩ := ih (fun e he => h e (List.mem_cons_of_mem _ he)) (start.insert entry.1 b)
    refine ⟨result, ?_⟩
    rw [List.foldlM_cons]
    exact bind_eq_ok.mpr ⟨start.insert entry.1 b, bind_eq_ok.mpr ⟨b, hb, rfl⟩, hr⟩

theorem foldlM_insert_find? {ε α β : Type} {f : Text → α → Except ε β}
    {entries : List (Text × α)} {start result : Directory β}
    (hn : (entries.map (·.1)).Nodup)
    (h : entries.foldlM (fun d (id, a) => do return d.insert id (← f id a)) start = .ok result) :
    (∀ entry ∈ entries, ∃ b, f entry.1 entry.2 = .ok b ∧ result.find? entry.1 = some b) ∧
      ∀ id ∉ entries.map (·.1), result.find? id = start.find? id := by
  induction entries generalizing start with
  | nil =>
    rw [List.foldlM_nil] at h
    obtain rfl := pure_eq_ok.mp h
    exact ⟨by simp, fun _ _ => rfl⟩
  | cons entry entries ih =>
    obtain ⟨name, a⟩ := entry
    rw [List.map_cons, List.nodup_cons] at hn
    rw [List.foldlM_cons] at h
    obtain ⟨next, hnext, h⟩ := bind_eq_ok.mp h
    obtain ⟨b, hb, hnext⟩ := bind_eq_ok.mp hnext
    obtain rfl := pure_eq_ok.mp hnext
    obtain ⟨hin, hout⟩ := ih hn.2 h
    constructor
    · intro entry hm
      rcases List.mem_cons.mp hm with rfl | hm
      · refine ⟨b, hb, ?_⟩
        rw [hout _ hn.1, Directory.find?_insert, if_pos rfl]
      · exact hin entry hm
    · intro id hid
      rw [List.map_cons, List.mem_cons, not_or] at hid
      rw [hout id hid.2, Directory.find?_insert, if_neg (Ne.symm hid.1)]

theorem readDeclarations_find? {known : Directory Json} {declared : Directory Declaration}
    (h : readDeclarations known = .ok declared) {id : Text} {d : Declaration} :
    declared.find? id = some d ↔ ∃ document, known.find? id = some document ∧
      Declaration.read (reusableSchemas known).find? id document = .ok d := by
  obtain ⟨hin, hout⟩ := foldlM_insert_find? known.names_nodup h
  constructor
  · intro hd
    have hm : id ∈ known.names := by
      by_contra hm
      rw [hout id hm] at hd
      simp at hd
    obtain ⟨document, hdoc⟩ := Option.isSome_iff_exists.mp (Directory.mem_names.mp hm)
    obtain ⟨d', hread, hd'⟩ := hin (id, document) (Directory.mem_entries.mpr hdoc)
    rw [hd] at hd'
    exact ⟨document, hdoc, Option.some.inj hd' ▸ hread⟩
  · rintro ⟨document, hdoc, hread⟩
    obtain ⟨d', hread', hd'⟩ := hin (id, document) (Directory.mem_entries.mpr hdoc)
    rw [hread] at hread'
    exact Except.ok.inj hread' ▸ hd'

theorem readDeclarations_reads {known : Directory Json} {declared : Directory Declaration}
    (h : readDeclarations known = .ok declared) {id : Text} {document : Json}
    (hd : known.find? id = some document) :
    ∃ d, Declaration.read (reusableSchemas known).find? id document = .ok d ∧
      declared.find? id = some d :=
  (foldlM_insert_find? known.names_nodup h).1 (id, document) (Directory.mem_entries.mpr hd)

theorem readDeclarations_ok {known : Directory Json}
    (h : ∀ id document, known.find? id = some document →
      ∃ d, Declaration.read (reusableSchemas known).find? id document = .ok d) :
    ∃ declared, readDeclarations known = .ok declared :=
  foldlM_insert_ok (fun entry hm => h entry.1 entry.2 (Directory.mem_entries.mp hm)) Directory.empty

theorem readDeclarations_has {known : Directory Json} {declared : Directory Declaration}
    (h : readDeclarations known = .ok declared) (id : Text) :
    declared.has id = known.has id := by
  obtain ⟨hin, hout⟩ := foldlM_insert_find? known.names_nodup h
  by_cases hm : id ∈ known.names
  · obtain ⟨document, hdoc⟩ := Option.isSome_iff_exists.mp (Directory.mem_names.mp hm)
    obtain ⟨d, -, hd⟩ := hin (id, document) (Directory.mem_entries.mpr hdoc)
    simp only at hd
    simp [Directory.has, hdoc, hd]
  · have hnone : known.has id = false := by
      simpa using (not_congr Directory.mem_names).mp hm
    rw [hnone, Directory.has, hout id hm]
    rfl

theorem readDeclarations_length {known : Directory Json} {declared : Directory Declaration}
    (h : readDeclarations known = .ok declared) :
    declared.entries.length = known.entries.length := by
  have hsame : declared.names.Perm known.names := by
    apply (List.perm_ext_iff_of_nodup declared.names_nodup known.names_nodup).mpr
    intro id
    rw [Directory.mem_names, Directory.mem_names, readDeclarations_has h]
  have hlength := hsame.length_eq
  rwa [Directory.names, Directory.names, List.length_map, List.length_map] at hlength

theorem readDeclarations_wellFormed {known : Directory Json} {declared : Directory Declaration}
    (hw : ∀ id document, known.find? id = some document → document.WellFormed)
    (h : readDeclarations known = .ok declared) {id : Text} {d : Declaration}
    (hd : declared.find? id = some d) : ∀ content ∈ d.contents, content.WellFormed := by
  obtain ⟨document, hdoc, hread⟩ := (readDeclarations_find? h).mp hd
  obtain ⟨contents, hc, hread⟩ := bind_eq_ok.mp hread
  obtain ⟨parents, -, hread⟩ := bind_eq_ok.mp hread
  obtain rfl := pure_eq_ok.mp hread
  intro content hm
  obtain ⟨entry, he, hentry⟩ := mem_of_mapM hc content hm
  refine Content.read_wellFormed (fun _ _ => reusableSchemas_wellFormed hw) ?_ hentry
  exact (hw id document hdoc).itemsAt _ entry he

end TwinGraph
