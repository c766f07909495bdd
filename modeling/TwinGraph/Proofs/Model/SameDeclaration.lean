import TwinGraph.Model.ContentReading
import TwinGraph.Proofs.Json.SameValue
import TwinGraph.Proofs.Outcome

/-! When two declarations are the same. Enumerated values are compared as values, so sameness is
coarser than equality; it is an equivalence on the declarations that documents give. -/
namespace TwinGraph

open Outcome

theorem EnumValue.same_iff {a b : EnumValue} :
    a.same b = true ↔ a.name = b.name ∧ a.value.sameValue b.value = true := by
  simp [EnumValue.same]

namespace Schema

mutual

/-- The enumerated values are values that a document can hold. -/
def WellFormed : Schema → Prop
  | enumeration _ values => ∀ v ∈ values, v.value.WellFormed
  | object fields => WellFormedFields fields
  | array element => element.WellFormed
  | map value => value.WellFormed
  | primitive _ => True

def WellFormedFields : List (Text × Schema) → Prop
  | [] => True
  | (_, schema) :: fields => schema.WellFormed ∧ WellFormedFields fields

end

theorem wellFormedFields_iff {fields : List (Text × Schema)} :
    WellFormedFields fields ↔ ∀ field ∈ fields, field.2.WellFormed := by
  induction fields with
  | nil => simp [WellFormedFields]
  | cons field fields ih =>
    obtain ⟨name, schema⟩ := field
    simp [WellFormedFields, ih]

theorem sameValues_refl {values : List EnumValue} (h : ∀ v ∈ values, v.value.WellFormed) :
    sameValues values values = true := by
  induction values with
  | nil => rfl
  | cons v values ih =>
    simp only [List.forall_mem_cons] at h
    simp only [sameValues, Bool.and_eq_true]
    exact ⟨EnumValue.same_iff.mpr ⟨rfl, Json.sameValue_refl _ h.1⟩, ih h.2⟩

theorem sameValues_symm {as bs : List EnumValue} (ha : ∀ v ∈ as, v.value.WellFormed)
    (hb : ∀ v ∈ bs, v.value.WellFormed) (h : sameValues as bs = true) :
    sameValues bs as = true := by
  induction as generalizing bs with
  | nil => cases bs <;> simp_all [sameValues]
  | cons a as ih =>
    cases bs with
    | nil => simp [sameValues] at h
    | cons b bs =>
      simp only [List.forall_mem_cons] at ha hb
      simp only [sameValues, Bool.and_eq_true, EnumValue.same_iff] at h ⊢
      exact ⟨⟨h.1.1.symm, Json.sameValue_symm _ ha.1 hb.1 h.1.2⟩, ih ha.2 hb.2 h.2⟩

theorem sameValues_trans {as bs cs : List EnumValue} (h : sameValues as bs = true)
    (k : sameValues bs cs = true) : sameValues as cs = true := by
  induction as generalizing bs cs with
  | nil => cases bs <;> cases cs <;> simp_all [sameValues]
  | cons a as ih =>
    cases bs with
    | nil => simp [sameValues] at h
    | cons b bs =>
      cases cs with
      | nil => simp [sameValues] at k
      | cons c cs =>
        simp only [sameValues, Bool.and_eq_true, EnumValue.same_iff] at h k ⊢
        exact ⟨⟨h.1.1.trans k.1.1, Json.sameValue_trans _ h.1.2 k.1.2⟩, ih h.2 k.2⟩

mutual

theorem same_refl : (s : Schema) → s.WellFormed → s.same s = true
  | primitive _, _ => by simp [same]
  | enumeration _ values, h => by
    simp only [same, beq_self_eq_true, Bool.true_and]
    exact sameValues_refl h
  | object fields, h => sameFields_refl fields h
  | array element, h => same_refl element h
  | map value, h => same_refl value h

theorem sameFields_refl : (fields : List (Text × Schema)) → WellFormedFields fields →
    sameFields fields fields = true
  | [], _ => rfl
  | (_, schema) :: fields, h => by
    simp [sameFields, same_refl schema h.1, sameFields_refl fields h.2]

end

mutual

theorem same_symm : (s : Schema) → {t : Schema} → s.WellFormed → t.WellFormed →
    s.same t = true → t.same s = true
  | primitive _, t, _, _, h => by cases t <;> simp_all [same]
  | enumeration _ values, t, hs, ht, h => by
    cases t with
    | enumeration _ others =>
      simp only [same, Bool.and_eq_true, beq_iff_eq] at h ⊢
      exact ⟨h.1.symm, sameValues_symm hs ht h.2⟩
    | _ => simp [same] at h
  | object fields, t, hs, ht, h => by
    cases t with
    | object others => exact sameFields_symm fields hs ht h
    | _ => simp [same] at h
  | array element, t, hs, ht, h => by
    cases t with
    | array other => exact same_symm element hs ht h
    | _ => simp [same] at h
  | map value, t, hs, ht, h => by
    cases t with
    | map other => exact same_symm value hs ht h
    | _ => simp [same] at h

theorem sameFields_symm : (as : List (Text × Schema)) → {bs : List (Text × Schema)} →
    WellFormedFields as → WellFormedFields bs → sameFields as bs = true →
    sameFields bs as = true
  | [], bs, _, _, h => by cases bs <;> simp_all [sameFields]
  | (_, a) :: as, bs, ha, hb, h => by
    cases bs with
    | nil => simp [sameFields] at h
    | cons field bs =>
      simp only [sameFields, Bool.and_eq_true, beq_iff_eq] at h ⊢
      exact ⟨⟨h.1.1.symm, same_symm a ha.1 hb.1 h.1.2⟩, sameFields_symm as ha.2 hb.2 h.2⟩

end

mutual

theorem same_trans : (s : Schema) → {t u : Schema} → s.same t = true → t.same u = true →
    s.same u = true
  | primitive _, t, u, h, k => by cases t <;> cases u <;> simp_all [same]
  | enumeration _ values, t, u, h, k => by
    cases t with
    | enumeration _ others =>
      cases u with
      | enumeration _ thirds =>
        simp only [same, Bool.and_eq_true, beq_iff_eq] at h k ⊢
        exact ⟨h.1.trans k.1, sameValues_trans h.2 k.2⟩
      | _ => simp [same] at k
    | _ => simp [same] at h
  | object fields, t, u, h, k => by
    cases t with
    | object others =>
      cases u with
      | object thirds => exact sameFields_trans fields h k
      | _ => simp [same] at k
    | _ => simp [same] at h
  | array element, t, u, h, k => by
    cases t with
    | array other =>
      cases u with
      | array third => exact same_trans element h k
      | _ => simp [same] at k
    | _ => simp [same] at h
  | map value, t, u, h, k => by
    cases t with
    | map other =>
      cases u with
      | map third => exact same_trans value h k
      | _ => simp [same] at k
    | _ => simp [same] at h

theorem sameFields_trans : (as : List (Text × Schema)) → {bs cs : List (Text × Schema)} →
    sameFields as bs = true → sameFields bs cs = true → sameFields as cs = true
  | [], bs, cs, h, k => by cases bs <;> cases cs <;> simp_all [sameFields]
  | (_, a) :: as, bs, cs, h, k => by
    cases bs with
    | nil => simp [sameFields] at h
    | cons b bs =>
      cases cs with
      | nil => simp [sameFields] at k
      | cons c cs =>
        simp only [sameFields, Bool.and_eq_true, beq_iff_eq] at h k ⊢
        exact ⟨⟨h.1.1.trans k.1.1, same_trans a h.1.2 k.1.2⟩, sameFields_trans as h.2 k.2⟩

end

end Schema

namespace Content

def WellFormed (c : Content) : Prop :=
  match c.kind with
  | .property schema _ => schema.WellFormed
  | .telemetry schema => schema.WellFormed
  | _ => True

theorem same_refl {c : Content} (h : c.WellFormed) : c.same c = true := by
  obtain ⟨name, kind⟩ := c
  cases kind <;> simp_all [same, ContentKind.same, WellFormed, Schema.same_refl]

theorem same_symm {c d : Content} (hc : c.WellFormed) (hd : d.WellFormed)
    (h : c.same d = true) : d.same c = true := by
  obtain ⟨name, kind⟩ := c
  obtain ⟨other, kind'⟩ := d
  simp only [same, Bool.and_eq_true, beq_iff_eq] at h ⊢
  refine ⟨h.1.symm, ?_⟩
  cases kind <;> cases kind' <;>
    simp only [ContentKind.same, Bool.and_eq_true, beq_iff_eq, Bool.false_eq_true, and_false]
      at h ⊢
  · exact ⟨Schema.same_symm _ hc hd h.2.1, h.2.2.symm⟩
  · exact Schema.same_symm _ hc hd h.2
  · exact h.2.symm
  · exact h.2.symm

theorem same_trans {c d e : Content} (h : c.same d = true) (k : d.same e = true) :
    c.same e = true := by
  obtain ⟨_, kind⟩ := c
  obtain ⟨_, kind'⟩ := d
  obtain ⟨_, kind''⟩ := e
  simp only [same, Bool.and_eq_true, beq_iff_eq] at h k ⊢
  refine ⟨h.1.trans k.1, ?_⟩
  cases kind <;> cases kind' <;> cases kind'' <;>
    simp only [ContentKind.same, Bool.and_eq_true, beq_iff_eq, Bool.false_eq_true, and_false]
      at h k ⊢
  · exact ⟨Schema.same_trans _ h.2.1 k.2.1, h.2.2.trans k.2.2⟩
  · exact Schema.same_trans _ h.2 k.2
  · exact h.2.trans k.2
  · exact h.2.trans k.2

end Content
end TwinGraph
