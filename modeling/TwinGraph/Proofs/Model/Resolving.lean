import TwinGraph.Model.Resolver
import TwinGraph.Proofs.Model.Entering
import Mathlib.Logic.Relation

/-! Resolvers that tell stored documents. What is collected with one is brought in by the batch and
by stored documents. -/
namespace TwinGraph

open Outcome Relation

variable {σ : Type}

/-- In such states the resolver tells the stored documents of the ids it is asked for, each once
and in any order. -/
structure Resolver.Tells (resolver : Resolver σ) (stored : List Json) (holds : σ → Prop) :
    Prop where
  answers : ∀ ids s, ids.Nodup → holds s → ∃ answer s', (resolver ids).run s = (.ok answer, s') ∧
    holds s' ∧ answer.Nodup ∧
      ∀ v, v ∈ answer ↔ v ∈ stored ∧ ∃ id ∈ ids, v.stringField? "@id" = some id

theorem Resolver.mem_select {documents : List Json} {ids : List Text} {d : Json} :
    d ∈ select documents ids ↔
      d ∈ documents ∧ ∃ id ∈ ids, d.stringField? "@id" = some id := by
  rw [select, List.mem_filter, Option.any_eq_true]
  refine and_congr_right fun _ => ?_
  constructor
  · rintro ⟨id, hid, hany⟩
    obtain ⟨id', hid', heq⟩ := List.any_eq_true.mp hany
    rw [beq_iff_eq] at heq
    exact ⟨id, heq ▸ hid', hid⟩
  · rintro ⟨id, hid, hfield⟩
    exact ⟨id, hfield, List.any_eq_true.mpr ⟨id, hid, beq_self_eq_true id⟩⟩

theorem Resolver.select_nodup {documents : List Json}
    (h : (documents.filterMap (Json.stringField? "@id")).Nodup) (ids : List Text) :
    (select documents ids).Nodup := by
  induction documents with
  | nil => exact List.nodup_nil
  | cons d documents ih =>
    cases hd : d.stringField? "@id" with
    | none =>
      rw [List.filterMap_cons_none hd] at h
      have hskip : select (d :: documents) ids = select documents ids := by
        rw [select, List.filter_cons, hd]
        rfl
      rw [hskip]
      exact ih h
    | some id =>
      rw [List.filterMap_cons_some hd, List.nodup_cons] at h
      have hnot : d ∉ select documents ids := fun hm =>
        h.1 (List.mem_filterMap.mpr ⟨d, (mem_select.mp hm).1, hd⟩)
      rw [select, List.filter_cons]
      split
      · exact List.nodup_cons.mpr ⟨hnot, ih h.2⟩
      · exact ih h.2

theorem Resolver.tells_ofDocuments {documents : List Json}
    (h : (documents.filterMap (Json.stringField? "@id")).Nodup) :
    (ofDocuments (σ := σ) documents).Tells documents fun _ => True where
  answers ids s _ _ := ⟨select documents ids, s, rfl, trivial, select_nodup h ids, fun _ => mem_select⟩

theorem Document.flatten_objects {documents : List Json}
    (h : ∀ d ∈ documents, d.isObject = true) : Document.flatten documents = .ok documents := by
  induction documents with
  | nil => rfl
  | cons d documents ih =>
    rw [List.forall_mem_cons] at h
    cases d with
    | object fields =>
      unfold flatten
      rw [ih h.2]
      rfl
    | _ => simp [Json.isObject] at h

theorem Document.objects_of_flatten {batch documents : List Json}
    (h : Document.flatten batch = .ok documents) : ∀ d ∈ documents, d.isObject = true := by
  induction batch generalizing documents with
  | nil =>
    cases h
    simp
  | cons d batch ih =>
    cases d with
    | object fields =>
      unfold flatten at h
      obtain ⟨rest, hrest, h⟩ := bind_eq_ok.mp h
      obtain rfl := pure_eq_ok.mp h
      exact List.forall_mem_cons.mpr ⟨rfl, ih hrest⟩
    | array items =>
      unfold flatten at h
      split at h
      · next hall =>
        obtain ⟨rest, hrest, h⟩ := bind_eq_ok.mp h
        obtain rfl := pure_eq_ok.mp h
        exact List.forall_mem_append.mpr ⟨List.all_eq_true.mp hall, ih hrest⟩
      · cases h
    | _ => cases h

namespace Resolution

theorem writtenAmong_flatten {batch documents : List Json}
    (h : Document.flatten batch = .ok documents) :
    writtenAmong documents = batch.flatMap written := by
  induction batch generalizing documents with
  | nil =>
    cases h
    rfl
  | cons d batch ih =>
    cases d with
    | object fields =>
      unfold Document.flatten at h
      obtain ⟨rest, hrest, h⟩ := bind_eq_ok.mp h
      obtain rfl := pure_eq_ok.mp h
      rw [List.flatMap_cons, ← ih hrest]
      rfl
    | array items =>
      unfold Document.flatten at h
      split at h
      · obtain ⟨rest, hrest, h⟩ := bind_eq_ok.mp h
        obtain rfl := pure_eq_ok.mp h
        rw [List.flatMap_cons, ← ih hrest, writtenAmong_append]
        rfl
      · cases h
    | _ => cases h

theorem missing_nodup {known : Directory Json} {ids : List Text} (h : missing known = .ok ids) :
    ids.Nodup := by
  obtain ⟨lists, -, h⟩ := bind_eq_ok.mp h
  obtain rfl := pure_eq_ok.mp h
  exact Directory.names_nodup _

theorem missing_ok {known : Directory Json}
    (h : ∀ id d, known.find? id = some d → ∃ refs, references d = .ok refs) :
    ∃ ids, missing known = .ok ids := by
  have hall : ∀ d ∈ known.values, ∃ refs, references d = .ok refs := by
    intro d hd
    obtain ⟨id, hid⟩ := Directory.mem_values.mp hd
    exact h id d hid
  obtain ⟨lists, hlists⟩ := mapM_ok hall
  exact ⟨_, bind_eq_ok.mpr ⟨lists, hlists, rfl⟩⟩

theorem learn_eq_ok {known known' : Directory Json} {ids : List Text} {answer : List Json} :
    learn known ids answer = .ok known' ↔ ∃ documents, Document.flatten answer = .ok documents ∧
      enterItems known (documents.filter (isNew known)) = .ok known' ∧
        ∀ id ∈ ids, known'.has id = true := by
  unfold learn
  rw [bind_eq_ok]
  refine exists_congr fun documents => and_congr_right fun _ => ?_
  rw [bind_eq_ok]
  constructor
  · rintro ⟨next, hnext, h⟩
    dsimp only at h
    split at h
    · next he =>
      obtain rfl := pure_eq_ok.mp h
      refine ⟨hnext, fun id hid => ?_⟩
      have := List.filter_eq_nil_iff.mp (List.isEmpty_iff.mp he) id hid
      simpa using this
    · cases h
  · rintro ⟨hnext, hall⟩
    refine ⟨known', hnext, ?_⟩
    have he : ids.filter (!known'.has ·) = [] := by
      refine List.filter_eq_nil_iff.mpr fun id hid => ?_
      rw [hall id hid]
      decide
    dsimp only
    rw [he]
    rfl

theorem complete_succ_eq_ok {resolver : Resolver σ} {rounds : Nat} {known known' : Directory Json}
    {s s' : σ} {ids : List Text} (hids : missing known = .ok ids) (hne : ids ≠ []) :
    (complete resolver (rounds + 1) known).run s = (.ok known', s') ↔
      ∃ answer s₁ learned, (resolver ids).run s = (.ok answer, s₁) ∧
        learn known ids answer = .ok learned ∧
        (complete resolver rounds learned).run s₁ = (.ok known', s') := by
  have he : ids.isEmpty = false := by simpa using hne
  rw [complete, run_lift_bind_eq_ok]
  constructor
  · rintro ⟨ids', hids', h⟩
    rw [hids] at hids'
    obtain rfl := Except.ok.inj hids'
    rw [he] at h
    obtain ⟨answer, s₁, hanswer, h⟩ := run_bind_eq_ok.mp h
    obtain ⟨learned, hlearn, h⟩ := run_lift_bind_eq_ok.mp h
    exact ⟨answer, s₁, learned, hanswer, hlearn, h⟩
  · rintro ⟨answer, s₁, learned, hanswer, hlearn, h⟩
    refine ⟨ids, hids, ?_⟩
    rw [he]
    exact run_bind_eq_ok.mpr ⟨answer, s₁, hanswer, run_lift_bind_eq_ok.mpr ⟨learned, hlearn, h⟩⟩

theorem complete_of_missing_nil (resolver : Resolver σ) (rounds : Nat) {known : Directory Json}
    (s : σ) (h : missing known = .ok []) :
    (complete resolver rounds known).run s = (.ok known, s) := by
  cases rounds <;> exact run_lift_bind_eq_ok.mpr ⟨[], h, rfl⟩

/-- Round by round stored documents come to those that brought in what is known. -/
theorem complete_brings {resolver : Resolver σ} {stored : List Json} {holds : σ → Prop}
    (htells : resolver.Tells stored holds) (hobjects : ∀ v ∈ stored, v.isObject = true)
    {rounds : Nat} {tops : List Json} {known known' : Directory Json} {s s' : σ} (hs : holds s)
    (hb : Brings tops known)
    (h : (complete resolver rounds known).run s = (.ok known', s')) :
    ∃ more, (∀ v ∈ more, v ∈ stored) ∧ Brings (tops ++ more) known' ∧ holds s' := by
  induction rounds generalizing tops known s with
  | zero =>
    obtain ⟨ids, -, h⟩ := run_lift_bind_eq_ok.mp h
    split at h
    · cases h
      exact ⟨[], by simp, by simpa using hb, hs⟩
    · cases h
  | succ rounds ih =>
    obtain ⟨ids, hids, -⟩ := run_lift_bind_eq_ok.mp h
    by_cases hne : ids = []
    · subst hne
      rw [complete_of_missing_nil resolver _ s hids] at h
      cases h
      exact ⟨[], by simp, by simpa using hb, hs⟩
    · obtain ⟨answer, s₁, learned, hanswer, hlearn, h⟩ := (complete_succ_eq_ok hids hne).mp h
      obtain ⟨answer', s₁', hanswer', hs₁, -, hmem⟩ := htells.answers ids s (missing_nodup hids) hs
      rw [hanswer] at hanswer'
      cases hanswer'
      have hflat := Document.flatten_objects fun d hd => hobjects d ((hmem d).mp hd).1
      obtain ⟨documents, hdocs, henter, -⟩ := learn_eq_ok.mp hlearn
      rw [hflat] at hdocs
      obtain rfl := Except.ok.inj hdocs
      obtain ⟨more, hmore, hbrings, hs'⟩ := ih hs₁ (hb.enterItems henter) h
      refine ⟨answer.filter (isNew known) ++ more, ?_, by simpa using hbrings, hs'⟩
      refine List.forall_mem_append.mpr ⟨fun v hv => ?_, hmore⟩
      exact ((hmem v).mp (List.mem_filter.mp hv).1).1

theorem collect_brings {resolver : Resolver σ} {stored : List Json} {holds : σ → Prop}
    (htells : resolver.Tells stored holds) (hobjects : ∀ v ∈ stored, v.isObject = true)
    {rounds : Nat} {batch documents : List Json} {known : Directory Json} {s s' : σ}
    (hs : holds s) (hflat : Document.flatten batch = .ok documents)
    (h : (collect rounds resolver batch).run s = (.ok known, s')) :
    ∃ more, (∀ v ∈ more, v ∈ stored) ∧ Brings (documents ++ more) known ∧ holds s' := by
  obtain ⟨documents', hflat', h⟩ := run_lift_bind_eq_ok.mp h
  rw [hflat] at hflat'
  obtain rfl := Except.ok.inj hflat'
  obtain ⟨entered, henter, h⟩ := run_lift_bind_eq_ok.mp h
  exact complete_brings htells hobjects hs (Brings.nothing.enterItems henter) h

end Resolution
end TwinGraph
