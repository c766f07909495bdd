import TwinGraph.Proofs.Model.Resolving
import Mathlib.Data.List.Pairwise
import Mathlib.Data.List.Perm.Subperm

/-! What is written in a document and what it refers to. An interface that is written inside another
one, or further inside, is reached from it, since interfaces are only written where something
extends them. -/
namespace TwinGraph.Resolution

open Outcome Relation

def inlineIds (document : Json) : List Text :=
  (writtenInline (document.fields?.getD [])).map Document.id

theorem mem_written {document d : Json} (h : document.isObject = true) :
    d ∈ written document ↔ d ∈ writtenInline (document.fields?.getD []) ∨ d = document := by
  cases document with
  | object fields =>
    unfold written
    rw [List.mem_append, List.mem_singleton]
    rfl
  | _ => simp [Json.isObject] at h

theorem mem_written_self {document : Json} (h : document.isObject = true) :
    document ∈ written document :=
  (mem_written h).mpr (Or.inr rfl)

mutual

theorem written_subset (document : Json) {d : Json} (hd : d ∈ written document) :
    d.isObject = true ∧ written d ⊆ written document := by
  match document with
  | .object fields =>
    have hwritten : written (.object fields) = writtenInline fields ++ [.object fields] := rfl
    rw [hwritten] at hd ⊢
    rcases List.mem_append.mp hd with hd | hd
    · obtain ⟨hobject, hsub⟩ := writtenInline_subset fields hd
      exact ⟨hobject, fun e he => List.mem_append_left _ (hsub he)⟩
    · obtain rfl := List.mem_singleton.mp hd
      exact ⟨rfl, hwritten ▸ List.Subset.refl _⟩
  | .array items => exact writtenAmong_subset items hd
  | .null | .bool _ | .number _ | .string _ => cases hd

theorem writtenInline_subset (fields : List (Text × Json)) {d : Json}
    (hd : d ∈ writtenInline fields) :
    d.isObject = true ∧ written d ⊆ writtenInline fields := by
  match fields with
  | [] => cases hd
  | (name, value) :: rest =>
    unfold writtenInline at hd ⊢
    split at hd
    · next hn =>
      rw [if_pos hn]
      exact written_subset value hd
    · next hn =>
      rw [if_neg hn]
      exact writtenInline_subset rest hd

theorem writtenAmong_subset (items : List Json) {d : Json} (hd : d ∈ writtenAmong items) :
    d.isObject = true ∧ written d ⊆ writtenAmong items := by
  match items with
  | [] => cases hd
  | item :: items =>
    unfold writtenAmong at hd ⊢
    rcases List.mem_append.mp hd with hd | hd
    · split at hd
      · next ho =>
        obtain ⟨hobject, hsub⟩ := written_subset item hd
        rw [if_pos ho]
        exact ⟨hobject, fun e he => List.mem_append_left _ (hsub he)⟩
      · cases hd
    · obtain ⟨hobject, hsub⟩ := writtenAmong_subset items hd
      exact ⟨hobject, fun e he => List.mem_append_right _ (hsub he)⟩

end

theorem writtenAmong_eq_flatMap (items : List Json) :
    writtenAmong items = items.flatMap fun item => if item.isObject then written item else [] := by
  induction items with
  | nil => rfl
  | cons item items ih => rw [writtenAmong, ih, List.flatMap_cons]

def writtenIds (document : Json) : List Text :=
  (if document.isObject then written document else []).map Document.id

theorem ids_writtenAmong (items : List Json) :
    (writtenAmong items).map Document.id = items.flatMap writtenIds := by
  rw [writtenAmong_eq_flatMap, List.map_flatMap]
  rfl

/-- Where each id is given once, different documents bring in different ids. -/
theorem writtenIds_disjoint {tops : List Json}
    (hdistinct : ((writtenAmong tops).map Document.id).Nodup) {t t' : Json} (ht : t ∈ tops)
    (ht' : t' ∈ tops) (hne : t ≠ t') : (writtenIds t).Disjoint (writtenIds t') := by
  rw [ids_writtenAmong, List.nodup_flatMap] at hdistinct
  have : Std.Symm (Function.onFun List.Disjoint writtenIds) :=
    ⟨fun _ _ h _ ha hb => h hb ha⟩
  exact hdistinct.2.forall ht ht' hne

theorem Brings.disjoint {tops : List Json} {known : Directory Json} (h : Brings tops known)
    {t t' : Json} (ht : t ∈ tops) (ht' : t' ∈ tops) (hne : t ≠ t') :
    (writtenIds t).Disjoint (writtenIds t') :=
  writtenIds_disjoint h.distinct ht ht' hne

theorem mem_writtenIds {document d : Json} (ho : document.isObject = true)
    (hd : d ∈ written document) : Document.id d ∈ writtenIds document := by
  unfold writtenIds
  rw [if_pos ho]
  exact List.mem_map_of_mem hd

/-- An interface is written in one document only. -/
theorem Brings.eq_of_mem_written {tops : List Json} {known : Directory Json}
    (h : Brings tops known) {t t' d : Json} (ht : t ∈ tops) (ht' : t' ∈ tops)
    (hto : t.isObject = true) (hto' : t'.isObject = true)
    (hd : d ∈ written t) (hd' : d ∈ written t') : t = t' := by
  by_contra hne
  exact h.disjoint ht ht' hne (mem_writtenIds hto hd) (mem_writtenIds hto' hd')

theorem Brings.distinct_of_subset {tops some : List Json} {known : Directory Json}
    (h : Brings tops known) (hn : some.Nodup) (hsub : some ⊆ tops) :
    ((writtenAmong some).map Document.id).Nodup := by
  have hdistinct := h.distinct
  rw [ids_writtenAmong, List.nodup_flatMap] at hdistinct ⊢
  refine ⟨fun t ht => hdistinct.1 t (hsub ht), hn.pairwise_of_forall_ne ?_⟩
  intro t ht t' ht' hne
  exact h.disjoint (hsub ht) (hsub ht') hne

theorem writtenAmong_mono {some tops : List Json} (hsub : some ⊆ tops) :
    writtenAmong some ⊆ writtenAmong tops := by
  intro d hd
  obtain ⟨t, ht, ho, hd⟩ := mem_writtenAmong.mp hd
  exact mem_writtenAmong.mpr ⟨t, hsub ht, ho, hd⟩

/-- The known document of the first id refers to the second one. -/
def Refers (known : Directory Json) (x y : Text) : Prop :=
  ∃ d refs, known.find? x = some d ∧ references d = .ok refs ∧ y ∈ refs

abbrev Reaches (known : Directory Json) (x y : Text) : Prop := ReflTransGen (Refers known) x y

theorem parentIds_mem {document parent : Json} {parents : List Text}
    (h : Document.parentIds document = .ok parents)
    (hp : document.field? "extends" = some parent ∨
      ∃ items, document.field? "extends" = some (.array items) ∧ parent ∈ items)
    (ho : parent.isObject = true) :
    Document.id parent ∈ parents := by
  have hid : ∀ id, Document.parentId parent = .ok id → Document.id parent = id := by
    intro id hid
    cases parent with
    | object fields => exact Document.id_of_interfaceId hid
    | _ => simp [Json.isObject] at ho
  unfold Document.parentIds at h
  rcases hp with hp | ⟨items, hp, hm⟩
  · rw [hp] at h
    cases parent with
    | object fields =>
      obtain ⟨id, hparent, h⟩ := bind_eq_ok.mp h
      obtain rfl := pure_eq_ok.mp h
      rw [hid id hparent]
      exact List.mem_singleton_self id
    | _ => simp [Json.isObject] at ho
  · rw [hp] at h
    obtain ⟨id, hm', hparent⟩ := ok_of_mapM h parent hm
    exact hid id hparent ▸ hm'

def WrittenParent (fields : List (Text × Json)) (parent : Json) : Prop :=
  parent.isObject = true ∧ (Fields.find? "extends" fields = some parent ∨
    ∃ items, Fields.find? "extends" fields = some (.array items) ∧ parent ∈ items)

section
variable {tops : List Json} {known : Directory Json}

theorem refers_writtenParent (hb : Brings tops known) (hmissing : missing known = .ok [])
    {fields : List (Text × Json)} {parent : Json}
    (hfields : Json.object fields ∈ writtenAmong tops) (hp : WrittenParent fields parent) :
    Refers known (Document.id (.object fields)) (Document.id parent) := by
  have hknown := (hb.find? _ _).mpr ⟨hfields, rfl⟩
  obtain ⟨refs, hrefs⟩ := (missing_eq_ok hmissing).1 _ _ hknown
  obtain ⟨parents, hparents, rfl, -⟩ := references_eq_ok.mp hrefs
  exact ⟨_, _, hknown, hrefs, List.mem_append_left _ (parentIds_mem hparents hp.2 hp.1)⟩

mutual

/-- An interface written in a document is an ancestor of it, so references lead to it. -/
theorem written_reached (hb : Brings tops known) (hmissing : missing known = .ok [])
    (document : Json) (ho : document.isObject = true)
    (hsub : written document ⊆ writtenAmong tops) {d : Json} (hd : d ∈ written document) :
    Reaches known (Document.id document) (Document.id d) := by
  match document with
  | .object fields =>
    rcases (mem_written ho).mp hd with hd | rfl
    · have hinline : writtenInline fields ⊆ writtenAmong tops := fun e he =>
        hsub ((mem_written ho).mpr (Or.inl he))
      obtain ⟨parent, hp, hreach⟩ := inline_reached hb hmissing fields hinline hd
      exact .head (refers_writtenParent hb hmissing (hsub (mem_written_self ho)) hp) hreach
    · exact .refl
  | .null | .bool _ | .number _ | .string _ | .array _ => cases ho

theorem inline_reached (hb : Brings tops known) (hmissing : missing known = .ok [])
    (fields : List (Text × Json)) (hsub : writtenInline fields ⊆ writtenAmong tops) {d : Json}
    (hd : d ∈ writtenInline fields) :
    ∃ parent, WrittenParent fields parent ∧
      Reaches known (Document.id parent) (Document.id d) := by
  match fields with
  | [] => cases hd
  | (name, value) :: rest =>
    unfold writtenInline at hd hsub
    unfold WrittenParent Fields.find?
    split at hd
    · next hn =>
      rw [if_pos hn] at hsub ⊢
      match value with
      | .object inner =>
        exact ⟨.object inner, ⟨rfl, Or.inl rfl⟩,
          written_reached hb hmissing (.object inner) rfl hsub hd⟩
      | .array items =>
        obtain ⟨parent, hm, ho, hreach⟩ := among_reached hb hmissing items hsub hd
        exact ⟨parent, ⟨ho, Or.inr ⟨items, rfl, hm⟩⟩, hreach⟩
      | .null | .bool _ | .number _ | .string _ => cases hd
    · next hn =>
      rw [if_neg hn] at hsub ⊢
      exact inline_reached hb hmissing rest hsub hd

theorem among_reached (hb : Brings tops known) (hmissing : missing known = .ok [])
    (items : List Json) (hsub : writtenAmong items ⊆ writtenAmong tops) {d : Json}
    (hd : d ∈ writtenAmong items) :
    ∃ parent ∈ items, parent.isObject = true ∧
      Reaches known (Document.id parent) (Document.id d) := by
  match items with
  | [] => cases hd
  | item :: items =>
    rw [writtenAmong] at hd hsub
    rcases List.mem_append.mp hd with hd | hd
    · split at hd
      · next ho =>
        rw [if_pos ho] at hsub
        exact ⟨item, List.mem_cons_self, ho, written_reached hb hmissing item ho
          (fun e he => hsub (List.mem_append_left _ he)) hd⟩
      · cases hd
    · obtain ⟨parent, hm, ho, hreach⟩ := among_reached hb hmissing items
        (fun e he => hsub (List.mem_append_right _ he)) hd
      exact ⟨parent, List.mem_cons_of_mem _ hm, ho, hreach⟩

end

end

end TwinGraph.Resolution
