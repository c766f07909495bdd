import TwinGraph.Proofs.Model.Reaching

/-! Collecting for one stored document again. From the documents that some parse knew, the single
document and everything it refers to is found again, one way or the other: it is a stored document
of its own, or it is written in one that is entered anyway. -/
namespace TwinGraph.Resolution

open Outcome Relation

/-- A parse that ended well and knew the given documents with all that is written in them, when
these documents are stored, under ids of their own. -/
structure Registered (stored tops : List Json) (known : Directory Json) : Prop where
  brings : Brings tops known
  closed : missing known = .ok []
  objects : ∀ v ∈ stored, v.isObject = true
  kept : tops ⊆ stored
  unique : (stored.filterMap (Json.stringField? "@id")).Nodup

/-- Whatever the document refers to, directly or through others, is written inline in it, or in
the stored document that refers to it, or it is not written inline in any stored document that
was known. -/
def FoundAgain (stored : List Json) (known : Directory Json) (root : Json) : Prop :=
  ∀ x y, Reaches known (Document.id root) x → Refers known x y →
    y ∈ inlineIds root ∨
    (∃ v ∈ stored, known.find? (Document.id v) = some v ∧ x ∈ writtenIds v ∧ y ∈ inlineIds v) ∨
    ∀ v ∈ stored, known.find? (Document.id v) = some v → y ∉ inlineIds v

structure Visited (tops : List Json) (known : Directory Json) (root : Json) (own : List Json)
    (found : Directory Json) : Prop where
  brings : Brings own found
  sub : own ⊆ tops
  nodup : own.Nodup
  first : root ∈ own
  reached : ∀ t ∈ own, Reaches known (Document.id root) (Document.id t)

theorem eq_of_filterMap_nodup {α β : Type} {f : α → Option β} {l : List α}
    (h : (l.filterMap f).Nodup) {a b : α} {c : β} (ha : a ∈ l) (hb : b ∈ l) (hfa : f a = some c)
    (hfb : f b = some c) : a = b := by
  by_contra hne
  have hpairwise := List.pairwise_filterMap.mp h
  have : Std.Symm fun x y => ∀ d, f x = some d → ∀ e, f y = some e → d ≠ e :=
    ⟨fun x y hxy d hd e he => (hxy e he d hd).symm⟩
  exact hpairwise.forall ha hb hne c hfa c hfb rfl

namespace Registered

variable {stored tops : List Json} {known : Directory Json} {root : Json}

theorem top_object (h : Registered stored tops known) {t : Json} (ht : t ∈ tops) :
    t.isObject = true :=
  h.objects t (h.kept ht)

theorem top_written (h : Registered stored tops known) {t : Json} (ht : t ∈ tops) :
    t ∈ writtenAmong tops :=
  mem_writtenAmong.mpr ⟨t, ht, h.top_object ht, mem_written_self (h.top_object ht)⟩

theorem find?_top (h : Registered stored tops known) {t : Json} (ht : t ∈ tops) :
    known.find? (Document.id t) = some t :=
  (h.brings.find? _ _).mpr ⟨h.top_written ht, rfl⟩

theorem stringField_top (h : Registered stored tops known) {t : Json} (ht : t ∈ tops) :
    t.stringField? "@id" = some (Document.id t) :=
  Document.stringField_of_interfaceId (h.brings.valid t (h.top_written ht))

theorem eq_top (h : Registered stored tops known) {t v : Json} (ht : t ∈ tops) (hv : v ∈ stored)
    (hid : v.stringField? "@id" = some (Document.id t)) : v = t :=
  eq_of_filterMap_nodup h.unique hv (h.kept ht) hid (h.stringField_top ht)

end Registered

namespace Visited

variable {stored tops own : List Json} {known found : Directory Json} {root : Json}

theorem find?_known (hv : Visited tops known root own found) (h : Registered stored tops known)
    {x : Text} {d : Json} (hd : found.find? x = some d) : known.find? x = some d := by
  obtain ⟨hd, hid⟩ := (hv.brings.find? x d).mp hd
  exact (h.brings.find? x d).mpr ⟨writtenAmong_mono hv.sub hd, hid⟩

theorem reached_written (hv : Visited tops known root own found)
    (h : Registered stored tops known) {d : Json} (hd : d ∈ writtenAmong own) :
    Reaches known (Document.id root) (Document.id d) := by
  obtain ⟨t, ht, ho, hd⟩ := mem_writtenAmong.mp hd
  have hsub : written t ⊆ writtenAmong tops := fun e he =>
    mem_writtenAmong.mpr ⟨t, hv.sub ht, ho, he⟩
  exact (hv.reached t ht).trans (written_reached h.brings h.closed t ho hsub hd)

theorem missing_ok (hv : Visited tops known root own found) (h : Registered stored tops known) :
    ∃ ids, missing found = .ok ids := by
  refine Resolution.missing_ok fun x d hd => ?_
  exact (missing_eq_ok h.closed).1 x d (hv.find?_known h hd)

theorem refers (hv : Visited tops known root own found) (h : Registered stored tops known)
    {x y : Text} (hxy : Refers found x y) :
    Reaches known (Document.id root) x ∧ Refers known x y := by
  obtain ⟨d, refs, hd, hrefs, hy⟩ := hxy
  obtain ⟨hm, rfl⟩ := (hv.brings.find? x d).mp hd
  exact ⟨hv.reached_written h hm, d, refs, hv.find?_known h hd, hrefs, hy⟩

theorem missing_top (hv : Visited tops known root own found) (h : Registered stored tops known)
    (hagain : FoundAgain stored known root) {ids : List Text} (hids : missing found = .ok ids)
    {y : Text} (hy : y ∈ ids) :
    ∃ t ∈ tops, Document.id t = y ∧ t ∉ own ∧ Reaches known (Document.id root) y := by
  obtain ⟨hnot, x, d, refs, hd, hrefs, hyr⟩ := ((missing_eq_ok hids).2 y).mp hy
  obtain ⟨hreach, hxy⟩ := hv.refers h ⟨d, refs, hd, hrefs, hyr⟩
  -- an interface written in a visited document would be known
  have hno : ∀ t ∈ own, ∀ e ∈ written t, Document.id e ≠ y := by
    intro t ht e he heq
    have hfound := hv.brings.has.mpr ⟨e, mem_writtenAmong.mpr
      ⟨t, ht, h.top_object (hv.sub ht), he⟩, heq⟩
    rw [hnot] at hfound
    cases hfound
  have hknown : known.has y = true := by
    obtain ⟨d', refs', hd', hrefs', hy'⟩ := hxy
    exact missing_eq_nil h.closed hd' hrefs' hy'
  obtain ⟨e, he, heq⟩ := h.brings.has.mp hknown
  obtain ⟨t, ht, hto, het⟩ := mem_writtenAmong.mp he
  rcases hagain x y hreach hxy with hinline | ⟨v, hvs, hvk, hxv, hinline⟩ | hnone
  · exfalso
    obtain ⟨e', he', heq'⟩ := List.mem_map.mp hinline
    exact hno root hv.first e' ((mem_written (h.top_object (hv.sub hv.first))).mpr (Or.inl he')) heq'
  · exfalso
    have hvo := h.objects v hvs
    obtain ⟨t', ht', hto', hvt'⟩ := mem_writtenAmong.mp ((h.brings.find? _ _).mp hvk).1
    have hsub := (written_subset t' hvt').2
    -- the visited document that holds the reference is the one that holds its target
    obtain ⟨hdm, hdx⟩ := (hv.brings.find? x d).mp hd
    obtain ⟨t₀, ht₀, hto₀, hdt₀⟩ := mem_writtenAmong.mp hdm
    unfold writtenIds at hxv
    rw [if_pos hvo] at hxv
    obtain ⟨m, hm, hmx⟩ := List.mem_map.mp hxv
    have hmd : m = d := h.brings.eq_of_id
      (mem_writtenAmong.mpr ⟨t', ht', hto', hsub hm⟩) (writtenAmong_mono hv.sub hdm)
      (hmx.trans hdx.symm)
    subst hmd
    have hsame : t₀ = t' := h.brings.eq_of_mem_written (hv.sub ht₀) ht' hto₀ hto' hdt₀ (hsub hm)
    obtain ⟨e', he', heq'⟩ := List.mem_map.mp hinline
    refine hno t₀ ht₀ e' ?_ heq'
    exact hsame ▸ hsub ((mem_written hvo).mpr (Or.inl he'))
  · rcases (mem_written hto).mp het with hinner | rfl
    · exact absurd (List.mem_map.mpr ⟨e, hinner, heq⟩) (hnone t (h.kept ht) (h.find?_top ht))
    · refine ⟨e, ht, heq, fun hown => ?_, hreach.tail hxy⟩
      exact hno e hown e (mem_written_self hto) heq

/-- A round visits exactly the documents that are missing. -/
theorem learn (hv : Visited tops known root own found) (h : Registered stored tops known)
    (hagain : FoundAgain stored known root) {ids : List Text} (hids : missing found = .ok ids)
    {answer : List Json} (hnodup : answer.Nodup)
    (hanswer : ∀ v, v ∈ answer ↔ v ∈ stored ∧ ∃ id ∈ ids, v.stringField? "@id" = some id) :
    ∃ found', Resolution.learn found ids answer = .ok found' ∧
      Visited tops known root (own ++ answer) found' := by
  have hmem : ∀ v ∈ answer, v ∈ tops ∧ v ∉ own ∧ Document.id v ∈ ids ∧
      Reaches known (Document.id root) (Document.id v) := by
    intro v hva
    obtain ⟨hvs, id, hid, hstr⟩ := (hanswer v).mp hva
    obtain ⟨t, ht, rfl, hnew, hreach⟩ := hv.missing_top h hagain hids hid
    obtain rfl := h.eq_top ht hvs hstr
    exact ⟨ht, hnew, hid, hreach⟩
  have hflat : Document.flatten answer = .ok answer :=
    Document.flatten_objects fun v hva => h.top_object (hmem v hva).1
  have hnew : answer.filter (isNew found) = answer := by
    refine List.filter_eq_self.mpr fun v hva => ?_
    obtain ⟨ht, -, hid, -⟩ := hmem v hva
    have hnot := (((missing_eq_ok hids).2 _).mp hid).1
    unfold isNew
    rw [h.stringField_top ht, Option.any_some, hnot]
    rfl
  have hsub : own ++ answer ⊆ tops := List.append_subset.mpr ⟨hv.sub, fun v hva => (hmem v hva).1⟩
  have hall : (own ++ answer).Nodup := by
    refine List.nodup_append.mpr ⟨hv.nodup, hnodup, fun a ha b hb hab => ?_⟩
    exact (hmem b hb).2.1 (hab ▸ ha)
  obtain ⟨found', hfound'⟩ := hv.brings.enterItems_ok
    (fun d hd => h.brings.valid d (writtenAmong_mono (fun v hva => (hmem v hva).1) hd))
    (h.brings.distinct_of_subset hall hsub)
  have hbrings := hv.brings.enterItems hfound'
  refine ⟨found', learn_eq_ok.mpr ⟨answer, hflat, hnew.symm ▸ hfound', fun y hy => ?_⟩, ?_⟩
  · obtain ⟨t, ht, rfl, -, -⟩ := hv.missing_top h hagain hids hy
    have hta : t ∈ answer := (hanswer t).mpr ⟨h.kept ht, _, hy, h.stringField_top ht⟩
    exact hbrings.has.mpr ⟨t, mem_writtenAmong.mpr ⟨t, List.mem_append_right _ hta,
      h.top_object ht, mem_written_self (h.top_object ht)⟩, rfl⟩
  · exact ⟨hbrings, hsub, hall, List.mem_append_left _ hv.first,
      List.forall_mem_append.mpr ⟨hv.reached, fun v hva => (hmem v hva).2.2.2⟩⟩

theorem complete {σ : Type} {resolver : Resolver σ} {holds : σ → Prop}
    (htells : resolver.Tells stored holds) (h : Registered stored tops known)
    (hagain : FoundAgain stored known root) {rounds : Nat} {s : σ} (hs : holds s)
    (hv : Visited tops known root own found) (hrounds : tops.length ≤ rounds + own.length) :
    ∃ own' found' s', (Resolution.complete resolver rounds found).run s = (.ok found', s') ∧
      holds s' ∧ Visited tops known root own' found' ∧ missing found' = .ok [] := by
  induction rounds generalizing own found s with
  | zero =>
    obtain ⟨ids, hids⟩ := hv.missing_ok h
    have hnil : ids = [] := by
      cases ids with
      | nil => rfl
      | cons y ids =>
        obtain ⟨t, ht, -, hnew, -⟩ := hv.missing_top h hagain hids List.mem_cons_self
        have hsub : t :: own ⊆ tops := List.cons_subset.mpr ⟨ht, hv.sub⟩
        have hlen := (List.Nodup.subperm (List.nodup_cons.mpr ⟨hnew, hv.nodup⟩) hsub).length_le
        rw [List.length_cons] at hlen
        omega
    subst hnil
    exact ⟨own, found, s, complete_of_missing_nil resolver 0 s hids, hs, hv, hids⟩
  | succ rounds ih =>
    obtain ⟨ids, hids⟩ := hv.missing_ok h
    by_cases hnil : ids = []
    · subst hnil
      exact ⟨own, found, s, complete_of_missing_nil resolver _ s hids, hs, hv, hids⟩
    · obtain ⟨answer, s₁, hanswer, hs₁, hnodup, hmem⟩ :=
        htells.answers ids s (missing_nodup hids) hs
      obtain ⟨learned, hlearn, hv'⟩ := hv.learn h hagain hids hnodup hmem
      have hsome : 0 < answer.length := by
        obtain ⟨y, hy⟩ := List.exists_mem_of_ne_nil ids hnil
        obtain ⟨t, ht, rfl, -, -⟩ := hv.missing_top h hagain hids hy
        exact List.length_pos_of_mem ((hmem t).mpr ⟨h.kept ht, _, hy, h.stringField_top ht⟩)
      obtain ⟨own', found', s', hrun, hs', hv'', hdone⟩ := ih hs₁ hv' (by
        rw [List.length_append]
        omega)
      exact ⟨own', found', s', (complete_succ_eq_ok hids hnil).mpr
        ⟨answer, s₁, learned, hanswer, hlearn, hrun⟩, hs', hv'', hdone⟩

theorem find?_iff (hv : Visited tops known root own found) (h : Registered stored tops known)
    (hdone : missing found = .ok []) (x : Text) (d : Json) :
    found.find? x = some d ↔ Reaches known (Document.id root) x ∧ known.find? x = some d := by
  constructor
  · intro hd
    obtain ⟨hm, rfl⟩ := (hv.brings.find? x d).mp hd
    exact ⟨hv.reached_written h hm, hv.find?_known h hd⟩
  · rintro ⟨hreach, hd⟩
    have hhas : found.has x = true := by
      clear hd
      induction hreach with
      | refl =>
        refine hv.brings.has.mpr ⟨root, mem_writtenAmong.mpr ⟨root, hv.first, ?_, ?_⟩, rfl⟩
        · exact h.top_object (hv.sub hv.first)
        · exact mem_written_self (h.top_object (hv.sub hv.first))
      | @tail x y _ hxy ih =>
        obtain ⟨e, he⟩ := Option.isSome_iff_exists.mp ih
        obtain ⟨d', refs, hd', hrefs, hy⟩ := hxy
        have he' := hv.find?_known h he
        rw [hd'] at he'
        obtain rfl := Option.some.inj he'
        exact missing_eq_nil hdone he hrefs hy
    obtain ⟨e, he⟩ := Option.isSome_iff_exists.mp hhas
    have he' := hv.find?_known h he
    rw [hd] at he'
    exact Option.some.inj he' ▸ he

end Visited

/-- Collecting for one of the documents again finds what references lead to from it, with the
documents that were known before. -/
theorem collect_again {σ : Type} {resolver : Resolver σ} {stored tops : List Json}
    {known : Directory Json} {root : Json} {holds : σ → Prop}
    (htells : resolver.Tells stored holds) (h : Registered stored tops known) (hroot : root ∈ tops)
    (hagain : FoundAgain stored known root) {rounds : Nat} {s : σ} (hs : holds s)
    (hrounds : tops.length ≤ rounds + 1) :
    ∃ found s', (collect rounds resolver [root]).run s = (.ok found, s') ∧ holds s' ∧
      missing found = .ok [] ∧ ∀ x d, found.find? x = some d ↔
        Reaches known (Document.id root) x ∧ known.find? x = some d := by
  have hsub : [root] ⊆ tops := List.cons_subset.mpr ⟨hroot, List.nil_subset _⟩
  obtain ⟨entered, hentered⟩ := Brings.nothing.enterItems_ok
    (fun d (hd : d ∈ writtenAmong [root]) => h.brings.valid d (writtenAmong_mono hsub hd))
    (h.brings.distinct_of_subset (List.nodup_singleton root) hsub)
  have hv : Visited tops known root [root] entered :=
    { brings := Brings.nothing.enterItems hentered
      sub := hsub
      nodup := List.nodup_singleton root
      first := List.mem_singleton_self root
      reached := by simp [ReflTransGen.refl] }
  obtain ⟨own, found, s', hrun, hs', hv', hdone⟩ := hv.complete htells h hagain hs hrounds
  refine ⟨found, s', ?_, hs', hdone, hv'.find?_iff h hdone⟩
  have hflat : Document.flatten [root] = .ok [root] :=
    Document.flatten_objects fun d hd => List.mem_singleton.mp hd ▸ h.top_object hroot
  exact run_lift_bind_eq_ok.mpr ⟨[root], hflat, run_lift_bind_eq_ok.mpr ⟨entered, hentered, hrun⟩⟩

end TwinGraph.Resolution
