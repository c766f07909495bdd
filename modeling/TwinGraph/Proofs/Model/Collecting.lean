import TwinGraph.Model.Inheritance
import TwinGraph.Proofs.Outcome

/-! Collecting documents and reading them. What every step has the whole has too, and when collecting
ends well, every known document refers to known ones only. -/
namespace TwinGraph

open Outcome

variable {σ : Type}

section
variable {Q : ∀ {α : Type}, ExceptT ModelError (StateM σ) α → Prop} {resolver : Resolver σ}

/-- What steps without state have, what one step after another keeps and what the resolver has, all
of the reading has. -/
theorem readInterfaces_of_steps
    (hlift : ∀ {α : Type} (x : Except ModelError α), Q (liftM x : ExceptT ModelError (StateM σ) α))
    (hbind : ∀ {α β : Type} {x : ExceptT ModelError (StateM σ) α}
      {f : α → ExceptT ModelError (StateM σ) β}, Q x → (∀ a, Q (f a)) → Q (x >>= f))
    (hresolver : ∀ ids, Q (resolver ids)) (rounds : Nat) (documents : List Json) :
    Q (readInterfaces rounds resolver documents) := by
  have hcomplete : ∀ known, Q (Resolution.complete resolver rounds known) := by
    induction rounds with
    | zero =>
      refine fun known => hbind (hlift _) fun ids => ?_
      split
      · exact hlift (.ok known)
      · exact hlift (.error _)
    | succ rounds ih =>
      refine fun known => hbind (hlift _) fun ids => ?_
      split
      · exact hlift (.ok known)
      · exact hbind (hresolver ids) fun answer => hbind (hlift _) ih
  refine hbind (hbind (hlift _) fun flat => hbind (hlift _) hcomplete) fun known => ?_
  exact hbind (hlift _) fun declared => hlift _

end

namespace Resolution

theorem mem_sortedIds {ids : List Text} {id : Text} : id ∈ sortedIds ids ↔ id ∈ ids := by
  have hall : ∀ start : Directory Unit,
      (ids.foldl (fun set id => set.insert id ()) start).has id = true ↔
        id ∈ ids ∨ start.has id = true := by
    induction ids with
    | nil => simp
    | cons head ids ih =>
      intro start
      rw [List.foldl_cons, ih, Directory.has_insert, List.mem_cons, eq_comm (a := head)]
      exact or_left_comm.trans (or_assoc.symm)
  unfold sortedIds
  rw [Directory.mem_names, hall]
  simp [Directory.has]

theorem references_eq_ok {document : Json} {ids : List Text} :
    references document = .ok ids ↔ ∃ parents, Document.parentIds document = .ok parents ∧
      ids = parents ++ Document.componentIds document ∧ ∀ id ∈ ids, ModelId.isValid id = true := by
  unfold references
  rw [bind_eq_ok]
  constructor
  · rintro ⟨parents, hp, h⟩
    simp only at h
    split at h
    · cases h
    · next hall =>
      obtain rfl := pure_eq_ok.mp h
      refine ⟨parents, hp, rfl, fun id hm => ?_⟩
      simpa using List.find?_eq_none.mp hall id hm
  · rintro ⟨parents, hp, rfl, hall⟩
    refine ⟨parents, hp, ?_⟩
    have hnone : (parents ++ Document.componentIds document).find? (!ModelId.isValid ·) = none := by
      rw [List.find?_eq_none]
      intro id hm
      rw [hall id hm]
      decide
    simp only [hnone]
    rfl

theorem missing_eq_ok {known : Directory Json} {ids : List Text} (h : missing known = .ok ids) :
    (∀ name document, known.find? name = some document → ∃ refs, references document = .ok refs) ∧
      ∀ id, id ∈ ids ↔ known.has id = false ∧ ∃ name document refs,
        known.find? name = some document ∧ references document = .ok refs ∧ id ∈ refs := by
  obtain ⟨lists, hlists, h⟩ := bind_eq_ok.mp h
  obtain rfl := pure_eq_ok.mp h
  constructor
  · intro name document hd
    obtain ⟨refs, -, hr⟩ := ok_of_mapM hlists document (Directory.mem_values.mpr ⟨name, hd⟩)
    exact ⟨refs, hr⟩
  · intro id
    rw [mem_sortedIds, List.mem_filter, List.mem_flatten, Bool.not_eq_true', and_comm]
    refine and_congr_right fun _ => ⟨?_, ?_⟩
    · rintro ⟨refs, hm, hid⟩
      obtain ⟨document, hd, hr⟩ := mem_of_mapM hlists refs hm
      obtain ⟨name, hname⟩ := Directory.mem_values.mp hd
      exact ⟨name, document, refs, hname, hr, hid⟩
    · rintro ⟨name, document, refs, hname, hr, hid⟩
      obtain ⟨refs', hm, hr'⟩ := ok_of_mapM hlists document (Directory.mem_values.mpr ⟨name, hname⟩)
      rw [hr] at hr'
      obtain rfl := Except.ok.inj hr'
      exact ⟨refs, hm, hid⟩

theorem missing_eq_nil {known : Directory Json} (h : missing known = .ok []) {name id : Text}
    {document : Json} {refs : List Text} (hd : known.find? name = some document)
    (hr : references document = .ok refs) (hid : id ∈ refs) : known.has id = true := by
  by_contra hnot
  have hm := ((missing_eq_ok h).2 id).mpr
    ⟨eq_false_of_ne_true hnot, name, document, refs, hd, hr, hid⟩
  cases hm

theorem complete_missing {resolver : Resolver σ} {rounds : Nat} {known known' : Directory Json}
    {s s' : σ} (h : (complete resolver rounds known).run s = (.ok known', s')) :
    missing known' = .ok [] := by
  induction rounds generalizing known s with
  | zero =>
    unfold complete at h
    obtain ⟨ids, hids, h⟩ := run_lift_bind_eq_ok.mp h
    split at h
    · next he =>
      cases h
      rw [hids, List.isEmpty_iff.mp he]
    · cases h
  | succ rounds ih =>
    unfold complete at h
    obtain ⟨ids, hids, h⟩ := run_lift_bind_eq_ok.mp h
    split at h
    · next he =>
      cases h
      rw [hids, List.isEmpty_iff.mp he]
    · obtain ⟨answer, s₁, -, h⟩ := run_bind_eq_ok.mp h
      obtain ⟨learned, -, h⟩ := run_lift_bind_eq_ok.mp h
      exact ih h

theorem collect_missing {resolver : Resolver σ} {rounds : Nat} {documents : List Json}
    {known : Directory Json} {s s' : σ}
    (h : (collect rounds resolver documents).run s = (.ok known, s')) :
    missing known = .ok [] := by
  obtain ⟨flat, -, h⟩ := run_lift_bind_eq_ok.mp h
  obtain ⟨entered, -, h⟩ := run_lift_bind_eq_ok.mp h
  exact complete_missing h

end Resolution
end TwinGraph
