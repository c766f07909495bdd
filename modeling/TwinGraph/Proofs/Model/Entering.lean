import TwinGraph.Proofs.Model.Collecting
import TwinGraph.Text.Directory
import Mathlib.Data.List.Nodup

/-! Entering documents. A document brings in the interfaces written in it, those written inline
before the ones they are written in. What is known after some documents were entered is given by
the documents alone: every interface in them under its own id, each id once. -/
namespace TwinGraph

open Outcome

def Document.id (document : Json) : Text := (document.stringField? "@id").getD []

theorem Document.stringField_of_interfaceId {document : Json} {id : Text}
    (h : Document.interfaceId document = .ok id) : document.stringField? "@id" = some id := by
  unfold Document.interfaceId at h
  split at h
  · cases h
  · next hid =>
    split at h
    · cases h
    · split at h
      · exact Except.ok.inj h ▸ hid
      · cases h

theorem Document.id_of_interfaceId {document : Json} {id : Text}
    (h : Document.interfaceId document = .ok id) : Document.id document = id := by
  unfold Document.id
  rw [Document.stringField_of_interfaceId h]
  rfl

def Document.definedId? (document : Json) : Option Text := (interfaceId document).toOption

theorem Document.definedId?_eq_some {document : Json} {id : Text} :
    definedId? document = some id ↔ interfaceId document = .ok id := by
  unfold definedId?
  cases interfaceId document <;> simp [Except.toOption]

namespace Resolution

mutual

/-- The interfaces written in a document, in the order in which they are entered. -/
def written : Json → List Json
  | .object fields => writtenInline fields ++ [.object fields]
  | .array items => writtenAmong items
  | _ => []

def writtenInline : List (Text × Json) → List Json
  | [] => []
  | (name, value) :: rest => if name = "extends" then written value else writtenInline rest

def writtenAmong : List Json → List Json
  | [] => []
  | item :: items => (if item.isObject then written item else []) ++ writtenAmong items

end

def definedIds (documents : List Json) : List Text :=
  (documents.flatMap written).filterMap Document.definedId?

def enterOne (known : Directory Json) (document : Json) : Except ModelError (Directory Json) := do
  let id ← Document.interfaceId document
  if known.has id then throw (.invalidDocument (.redefined id))
  return known.insert id document

theorem enterOne_eq_ok {known known' : Directory Json} {document : Json} :
    enterOne known document = .ok known' ↔ ∃ id, Document.interfaceId document = .ok id ∧
      known.has id = false ∧ known' = known.insert id document := by
  unfold enterOne
  rw [bind_eq_ok]
  refine exists_congr fun id => and_congr_right fun _ => ?_
  cases hid : known.has id
  · exact pure_eq_ok.trans ⟨fun h => ⟨rfl, h.symm⟩, fun h => h.2.symm⟩
  · constructor
    · intro h
      cases h
    · rintro ⟨h, -⟩
      cases h

mutual

theorem enter_eq_ok (document : Json) {known known' : Directory Json} :
    enter known document = .ok known' ↔ (written document).foldlM enterOne known = .ok known' := by
  match document with
  | .object fields =>
    unfold enter written
    rw [List.foldlM_append, bind_eq_ok, bind_eq_ok]
    simp only [List.foldlM_cons, List.foldlM_nil, bind_pure]
    constructor
    · rintro ⟨id, hid, h⟩
      obtain ⟨next, hnext, h⟩ := bind_eq_ok.mp h
      refine ⟨next, (enterInline_eq_ok fields).mp hnext, bind_eq_ok.mpr ⟨id, hid, h⟩⟩
    · rintro ⟨next, hnext, h⟩
      obtain ⟨id, hid, h⟩ := bind_eq_ok.mp h
      exact ⟨id, hid, bind_eq_ok.mpr ⟨next, (enterInline_eq_ok fields).mpr hnext, h⟩⟩
  | .array items => exact enterItems_eq_ok items
  | .null => rfl
  | .bool _ => rfl
  | .number _ => rfl
  | .string _ => rfl

theorem enterInline_eq_ok (fields : List (Text × Json)) {known known' : Directory Json} :
    enterInline known fields = .ok known' ↔
      (writtenInline fields).foldlM enterOne known = .ok known' := by
  match fields with
  | [] => rfl
  | (name, value) :: rest =>
    unfold enterInline writtenInline
    split
    · exact enter_eq_ok value
    · exact enterInline_eq_ok rest

theorem enterItems_eq_ok (items : List Json) {known known' : Directory Json} :
    enterItems known items = .ok known' ↔
      (writtenAmong items).foldlM enterOne known = .ok known' := by
  match items with
  | [] => rfl
  | item :: items =>
    unfold enterItems writtenAmong
    rw [List.foldlM_append]
    split
    · rw [bind_eq_ok, bind_eq_ok]
      exact exists_congr fun next => and_congr (enter_eq_ok item) (enterItems_eq_ok items)
    · exact enterItems_eq_ok items

end

theorem writtenAmong_append (as bs : List Json) :
    writtenAmong (as ++ bs) = writtenAmong as ++ writtenAmong bs := by
  induction as with
  | nil => rfl
  | cons a as ih => simp only [List.cons_append, writtenAmong, ih, List.append_assoc]

theorem mem_writtenAmong {items : List Json} {document : Json} :
    document ∈ writtenAmong items ↔
      ∃ item ∈ items, item.isObject = true ∧ document ∈ written item := by
  induction items with
  | nil => simp [writtenAmong]
  | cons item items ih =>
    rw [writtenAmong, List.mem_append, ih]
    by_cases h : item.isObject = true <;> simp [h]

/-- Everything that is known was brought in by the documents, each id by one interface. -/
structure Brings (tops : List Json) (known : Directory Json) : Prop where
  valid : ∀ d ∈ writtenAmong tops, Document.interfaceId d = .ok (Document.id d)
  distinct : ((writtenAmong tops).map Document.id).Nodup
  find? : ∀ id d, known.find? id = some d ↔ d ∈ writtenAmong tops ∧ Document.id d = id

theorem Brings.nothing : Brings [] Directory.empty where
  valid := by simp [writtenAmong]
  distinct := by simp [writtenAmong]
  find? := by simp [writtenAmong]

theorem Brings.has {tops : List Json} {known : Directory Json} (h : Brings tops known) {id : Text} :
    known.has id = true ↔ ∃ d ∈ writtenAmong tops, Document.id d = id := by
  rw [Directory.has, Option.isSome_iff_exists]
  exact exists_congr fun d => h.find? id d

/-- What is known holds one interface for each id, so it does not matter where it was written. -/
theorem Brings.eq_of_id {tops : List Json} {known : Directory Json} (h : Brings tops known)
    {d e : Json} (hd : d ∈ writtenAmong tops) (he : e ∈ writtenAmong tops)
    (hid : Document.id d = Document.id e) : d = e :=
  List.inj_on_of_nodup_map h.distinct hd he hid

theorem foldlM_enterOne_ok {docs : List Json} {known : Directory Json}
    (hvalid : ∀ d ∈ docs, Document.interfaceId d = .ok (Document.id d))
    (hdistinct : (docs.map Document.id).Nodup)
    (hnew : ∀ d ∈ docs, known.has (Document.id d) = false) :
    ∃ known', docs.foldlM enterOne known = .ok known' := by
  induction docs generalizing known with
  | nil => exact ⟨known, rfl⟩
  | cons d docs ih =>
    rw [List.map_cons, List.nodup_cons] at hdistinct
    rw [List.forall_mem_cons] at hvalid hnew
    have hrest : ∀ e ∈ docs, (known.insert (Document.id d) d).has (Document.id e) = false := by
      intro e he
      have hne : Document.id d ≠ Document.id e := fun h =>
        hdistinct.1 (List.mem_map.mpr ⟨e, he, h.symm⟩)
      rw [Directory.has_eq_false, Directory.find?_insert, if_neg hne]
      exact Directory.has_eq_false.mp (hnew.2 e he)
    obtain ⟨known', h⟩ := ih hvalid.2 hdistinct.2 hrest
    refine ⟨known', ?_⟩
    rw [List.foldlM_cons]
    exact bind_eq_ok.mpr ⟨_, enterOne_eq_ok.mpr ⟨_, hvalid.1, hnew.1, rfl⟩, h⟩

theorem foldlM_enterOne_eq_ok {docs : List Json} {known known' : Directory Json}
    (h : docs.foldlM enterOne known = .ok known') :
    (∀ d ∈ docs, Document.interfaceId d = .ok (Document.id d)) ∧
      (docs.map Document.id).Nodup ∧ (∀ d ∈ docs, known.has (Document.id d) = false) ∧
      ∀ id d, known'.find? id = some d ↔
        known.find? id = some d ∨ d ∈ docs ∧ Document.id d = id := by
  induction docs generalizing known with
  | nil =>
    obtain rfl := pure_eq_ok.mp h
    simp
  | cons d docs ih =>
    rw [List.foldlM_cons] at h
    obtain ⟨next, hnext, h⟩ := bind_eq_ok.mp h
    obtain ⟨id, hid, hnew, rfl⟩ := enterOne_eq_ok.mp hnext
    obtain rfl := Document.id_of_interfaceId hid
    obtain ⟨hvalid, hdistinct, hfresh, hfind⟩ := ih h
    have hnot : ∀ e ∈ docs, Document.id d ≠ Document.id e ∧ known.has (Document.id e) = false := by
      intro e he
      have := hfresh e he
      rw [Directory.has_eq_false, Directory.find?_insert] at this
      split at this
      · cases this
      · next hne => exact ⟨hne, Directory.has_eq_false.mpr this⟩
    refine ⟨List.forall_mem_cons.mpr ⟨hid, hvalid⟩, ?_, ?_, ?_⟩
    · refine List.nodup_cons.mpr ⟨fun hm => ?_, hdistinct⟩
      obtain ⟨e, he, heq⟩ := List.mem_map.mp hm
      exact (hnot e he).1 heq.symm
    · exact List.forall_mem_cons.mpr ⟨hnew, fun e he => (hnot e he).2⟩
    · intro id e
      rw [hfind, Directory.find?_insert, List.mem_cons, or_and_right]
      split
      · next heq =>
        subst heq
        rw [Directory.has_eq_false.mp hnew, Option.some.injEq]
        constructor
        · rintro (rfl | h)
          · exact Or.inr (Or.inl ⟨rfl, rfl⟩)
          · exact Or.inr (Or.inr h)
        · rintro (h | ⟨rfl, -⟩ | h)
          · cases h
          · exact Or.inl rfl
          · exact Or.inr h
      · next hne =>
        constructor
        · exact fun h => h.imp_right Or.inr
        · rintro (hk | ⟨rfl, he⟩ | hm)
          · exact Or.inl hk
          · exact absurd he hne
          · exact Or.inr hm

theorem Brings.enterItems {tops more : List Json} {known known' : Directory Json}
    (hb : Brings tops known) (h : enterItems known more = .ok known') :
    Brings (tops ++ more) known' := by
  obtain ⟨hvalid, hdistinct, hnew, hfind⟩ :=
    foldlM_enterOne_eq_ok ((enterItems_eq_ok more).mp h)
  constructor
  · intro d hd
    rw [writtenAmong_append, List.mem_append] at hd
    exact hd.elim (hb.valid d) (hvalid d)
  · rw [writtenAmong_append, List.map_append, List.nodup_append]
    refine ⟨hb.distinct, hdistinct, ?_⟩
    intro id hid id' hid' heq
    obtain ⟨d, hd, rfl⟩ := List.mem_map.mp hid
    obtain ⟨e, he, rfl⟩ := List.mem_map.mp hid'
    have hhas := hb.has.mpr ⟨d, hd, heq⟩
    rw [hnew e he] at hhas
    cases hhas
  · intro id d
    rw [hfind, hb.find?, writtenAmong_append, List.mem_append, or_and_right]

/-- Documents can be entered whenever all of them together give no id twice. -/
theorem Brings.enterItems_ok {tops more : List Json} {known : Directory Json}
    (hb : Brings tops known)
    (hvalid : ∀ d ∈ writtenAmong more, Document.interfaceId d = .ok (Document.id d))
    (hdistinct : ((writtenAmong (tops ++ more)).map Document.id).Nodup) :
    ∃ known', Resolution.enterItems known more = .ok known' := by
  rw [writtenAmong_append, List.map_append, List.nodup_append] at hdistinct
  obtain ⟨known', h⟩ := foldlM_enterOne_ok hvalid hdistinct.2.1 fun d hd => by
    by_contra hhas
    obtain ⟨e, he, heq⟩ := hb.has.mp (by simpa using hhas)
    exact hdistinct.2.2 _ (List.mem_map_of_mem he) _ (List.mem_map_of_mem hd) heq
  exact ⟨known', (enterItems_eq_ok more).mpr h⟩

end Resolution
end TwinGraph
