import TwinGraph.Json.Basic
import Mathlib.Data.List.Perm.Subperm

/-! Objects with each name once, as every reader of documents makes them, and the sameness of
such values: it is reflexive, symmetric and transitive. Without the condition on names it is
neither reflexive nor symmetric. -/
namespace TwinGraph

theorem Number.sameValue_refl (m : Number) : m.sameValue m = true := by
  cases m <;> simp [sameValue, Binary64.sameValue]

theorem Number.sameValue_symm {m n : Number} (h : m.sameValue n = true) :
    n.sameValue m = true := by
  cases m with
  | whole a _ =>
    cases n with
    | whole b _ =>
      simp only [sameValue, beq_iff_eq] at h ⊢
      exact h.symm
    | float y => simp [sameValue] at h
  | float x =>
    cases n with
    | whole b _ => simp [sameValue] at h
    | float y =>
      simp only [sameValue, Binary64.sameValue, Bool.or_eq_true, beq_iff_eq,
        Bool.and_eq_true] at h ⊢
      exact h.imp Eq.symm And.symm

theorem Number.sameValue_trans {m n k : Number} (h : m.sameValue n = true)
    (i : n.sameValue k = true) : m.sameValue k = true := by
  cases m <;> cases n <;> cases k <;>
    simp only [sameValue, Binary64.sameValue, Bool.or_eq_true, beq_iff_eq, Bool.and_eq_true,
      Bool.false_eq_true] at h i ⊢
  · exact h.trans i
  · rcases h with rfl | h
    · exact i
    · rcases i with rfl | i
      · exact Or.inr h
      · exact Or.inr ⟨h.1, i.2⟩

namespace Json

mutual

/-- Every object in the value has each name once. -/
def WellFormed : Json → Prop
  | array items => WellFormedItems items
  | object fields => (Fields.names fields).Nodup ∧ WellFormedFields fields
  | _ => True

def WellFormedItems : List Json → Prop
  | [] => True
  | item :: items => item.WellFormed ∧ WellFormedItems items

def WellFormedFields : List (Text × Json) → Prop
  | [] => True
  | (_, value) :: fields => value.WellFormed ∧ WellFormedFields fields

end

mutual

def decideWellFormed : (j : Json) → Decidable j.WellFormed
  | array items => decideWellFormedItems items
  | object fields => @instDecidableAnd _ _ inferInstance (decideWellFormedFields fields)
  | null | bool _ | number _ | string _ => .isTrue trivial

def decideWellFormedItems : (items : List Json) → Decidable (WellFormedItems items)
  | [] => .isTrue trivial
  | item :: items => @instDecidableAnd _ _ (decideWellFormed item) (decideWellFormedItems items)

def decideWellFormedFields : (fields : List (Text × Json)) → Decidable (WellFormedFields fields)
  | [] => .isTrue trivial
  | (_, value) :: fields =>
    @instDecidableAnd _ _ (decideWellFormed value) (decideWellFormedFields fields)

end

instance (j : Json) : Decidable j.WellFormed := decideWellFormed j

theorem wellFormedItems_iff {items : List Json} :
    WellFormedItems items ↔ ∀ item ∈ items, item.WellFormed := by
  induction items with
  | nil => simp [WellFormedItems]
  | cons item items ih => simp [WellFormedItems, ih]

theorem wellFormedFields_iff {fields : List (Text × Json)} :
    WellFormedFields fields ↔ ∀ field ∈ fields, field.2.WellFormed := by
  induction fields with
  | nil => simp [WellFormedFields]
  | cons field fields ih =>
    obtain ⟨name, value⟩ := field
    simp [WellFormedFields, ih]

theorem WellFormed.field {j value : Json} {name : Text} (h : j.WellFormed)
    (hf : j.field? name = some value) : value.WellFormed := by
  cases j with
  | object fields => exact wellFormedFields_iff.mp h.2 _ (Fields.mem_of_find? hf)
  | _ => simp [field?] at hf

theorem WellFormed.items {j : Json} (h : j.WellFormed) :
    ∀ item ∈ j.items?.getD [], item.WellFormed := by
  cases j with
  | array items => exact wellFormedItems_iff.mp h
  | _ => simp [items?]

theorem WellFormed.itemsAt {j : Json} (h : j.WellFormed) (name : Text) :
    ∀ item ∈ ((j.field? name).bind items?).getD [], item.WellFormed := by
  cases hf : j.field? name with
  | none => simp
  | some value => exact (h.field hf).items

theorem sameFields_iff {as bs : List (Text × Json)} :
    sameFields as bs = true ↔
      ∀ field ∈ as, ∃ b, Fields.find? field.1 bs = some b ∧ field.2.sameValue b = true := by
  induction as with
  | nil => simp [sameFields]
  | cons field as ih =>
    obtain ⟨name, a⟩ := field
    cases hb : Fields.find? name bs <;> simp [sameFields, hb, ih]

/-- Two objects of the same size have the same names as soon as one has all names of the other. -/
theorem names_subset {as bs : List (Text × Json)} (hl : as.length = bs.length)
    (ha : (Fields.names as).Nodup) (hs : Fields.names as ⊆ Fields.names bs) :
    Fields.names bs ⊆ Fields.names as := by
  have hp : (Fields.names as).Subperm (Fields.names bs) := ha.subperm hs
  have hlen : (Fields.names bs).length ≤ (Fields.names as).length := by
    simp [Fields.names, hl]
  exact (hp.perm_of_length_le hlen).symm.subset

mutual

theorem sameValue_refl : (j : Json) → j.WellFormed → j.sameValue j = true
  | null, _ => rfl
  | bool _, _ => by simp [sameValue]
  | number m, _ => by simpa [sameValue] using Number.sameValue_refl m
  | string _, _ => by simp [sameValue]
  | array items, h => by
    simpa [sameValue] using sameItems_refl items h
  | object fields, h => by
    have hf := sameFields_refl fields h.2
    simp only [sameValue, beq_self_eq_true, Bool.true_and]
    exact sameFields_iff.mpr fun field hm =>
      ⟨field.2, Fields.find?_of_mem h.1 hm, hf field hm⟩

theorem sameItems_refl : (items : List Json) → WellFormedItems items →
    sameItems items items = true
  | [], _ => rfl
  | item :: items, h => by
    simp [sameItems, sameValue_refl item h.1, sameItems_refl items h.2]

theorem sameFields_refl : (fields : List (Text × Json)) → WellFormedFields fields →
    ∀ field ∈ fields, field.2.sameValue field.2 = true
  | [], _ => by simp
  | (_, value) :: fields, h => by
    intro field hm
    rcases List.mem_cons.mp hm with rfl | hm
    · exact sameValue_refl value h.1
    · exact sameFields_refl fields h.2 field hm

end

mutual

theorem sameValue_symm : (a : Json) → {b : Json} → a.WellFormed → b.WellFormed →
    a.sameValue b = true → b.sameValue a = true
  | null, b, _, _, h => by cases b <;> simp_all [sameValue]
  | bool _, b, _, _, h => by cases b <;> simp_all [sameValue]
  | string _, b, _, _, h => by cases b <;> simp_all [sameValue]
  | number _, b, _, _, h => by
    cases b with
    | number _ => exact Number.sameValue_symm h
    | _ => simp [sameValue] at h
  | array items, b, ha, hb, h => by
    cases b with
    | array others => exact sameItems_symm items ha hb h
    | _ => simp [sameValue] at h
  | object as, b, ha, hb, h => by
    cases b with
    | object bs =>
      simp only [sameValue, Bool.and_eq_true, beq_iff_eq] at h ⊢
      obtain ⟨hl, hf⟩ := h
      have hsub : Fields.names as ⊆ Fields.names bs := by
        intro name hname
        obtain ⟨field, hm, rfl⟩ := List.mem_map.mp hname
        obtain ⟨b, hfind, -⟩ := sameFields_iff.mp hf field hm
        exact List.mem_map.mpr ⟨(field.1, b), Fields.mem_of_find? hfind, rfl⟩
      refine ⟨hl.symm, sameFields_iff.mpr fun field hm => ?_⟩
      obtain ⟨other, hother, hname⟩ := List.mem_map.mp
        (names_subset hl ha.1 hsub (List.mem_map_of_mem hm))
      obtain ⟨b, hfind, hsame⟩ := sameFields_iff.mp hf other hother
      have hb' : b = field.2 := by
        rw [hname, Fields.find?_of_mem hb.1 hm] at hfind
        exact (Option.some.inj hfind).symm
      refine ⟨other.2, hname ▸ Fields.find?_of_mem ha.1 hother, ?_⟩
      exact sameFields_symm as ha.2 other hother (wellFormedFields_iff.mp hb.2 _ hm) (hb' ▸ hsame)
    | _ => simp [sameValue] at h

theorem sameItems_symm : (as : List Json) → {bs : List Json} → WellFormedItems as →
    WellFormedItems bs → sameItems as bs = true → sameItems bs as = true
  | [], bs, _, _, h => by cases bs <;> simp_all [sameItems]
  | a :: as, bs, ha, hb, h => by
    cases bs with
    | nil => simp [sameItems] at h
    | cons b bs =>
      simp only [sameItems, Bool.and_eq_true] at h ⊢
      exact ⟨sameValue_symm a ha.1 hb.1 h.1, sameItems_symm as ha.2 hb.2 h.2⟩

theorem sameFields_symm : (as : List (Text × Json)) → WellFormedFields as →
    ∀ field ∈ as, ∀ {b : Json}, b.WellFormed → field.2.sameValue b = true →
      b.sameValue field.2 = true
  | [], _ => by simp
  | (_, a) :: as, ha => by
    intro field hm b hb h
    rcases List.mem_cons.mp hm with rfl | hm
    · exact sameValue_symm a ha.1 hb h
    · exact sameFields_symm as ha.2 field hm hb h

end

mutual

theorem sameValue_trans : (a : Json) → {b c : Json} → a.sameValue b = true →
    b.sameValue c = true → a.sameValue c = true
  | null, b, c, h, k => by cases b <;> cases c <;> simp_all [sameValue]
  | bool _, b, c, h, k => by cases b <;> cases c <;> simp_all [sameValue]
  | string _, b, c, h, k => by cases b <;> cases c <;> simp_all [sameValue]
  | number _, b, c, h, k => by
    cases b with
    | number _ =>
      cases c with
      | number _ => exact Number.sameValue_trans h k
      | _ => simp [sameValue] at k
    | _ => simp [sameValue] at h
  | array as, b, c, h, k => by
    cases b with
    | array bs =>
      cases c with
      | array cs => exact sameItems_trans as h k
      | _ => simp [sameValue] at k
    | _ => simp [sameValue] at h
  | object as, b, c, h, k => by
    cases b with
    | object bs =>
      cases c with
      | object cs =>
        simp only [sameValue, Bool.and_eq_true, beq_iff_eq] at h k ⊢
        refine ⟨h.1.trans k.1, sameFields_iff.mpr fun field hm => ?_⟩
        obtain ⟨b, hfind, hsame⟩ := sameFields_iff.mp h.2 field hm
        obtain ⟨c, hfind', hsame'⟩ := sameFields_iff.mp k.2 _ (Fields.mem_of_find? hfind)
        exact ⟨c, hfind', sameFields_trans as field hm hsame hsame'⟩
      | _ => simp [sameValue] at k
    | _ => simp [sameValue] at h

theorem sameItems_trans : (as : List Json) → {bs cs : List Json} → sameItems as bs = true →
    sameItems bs cs = true → sameItems as cs = true
  | [], bs, cs, h, k => by cases bs <;> cases cs <;> simp_all [sameItems]
  | a :: as, bs, cs, h, k => by
    cases bs with
    | nil => simp [sameItems] at h
    | cons b bs =>
      cases cs with
      | nil => simp [sameItems] at k
      | cons c cs =>
        simp only [sameItems, Bool.and_eq_true] at h k ⊢
        exact ⟨sameValue_trans a h.1 k.1, sameItems_trans as h.2 k.2⟩

theorem sameFields_trans : (as : List (Text × Json)) → ∀ field ∈ as, ∀ {b c : Json},
    field.2.sameValue b = true → b.sameValue c = true → field.2.sameValue c = true
  | [] => by simp
  | (_, a) :: as => by
    intro field hm b c h k
    rcases List.mem_cons.mp hm with rfl | hm
    · exact sameValue_trans a h k
    · exact sameFields_trans as field hm h k

end

end Json
end TwinGraph
