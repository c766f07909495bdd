import TwinGraph.Proofs.Model.Asking
import TwinGraph.Proofs.Model.Revisiting
import Mathlib.Data.List.Duplicate

/-! Stored models together. An answer brings in documents whose ids are new, but an interface
written inside of them may be known already, or may be written inside of another one of them. -/
namespace TwinGraph

open Outcome

variable {σ : Type}

namespace Resolution

/-! ### Why entering fails -/

/-- An interface whose id is known when its turn comes. -/
def Redefines (known : Directory Json) (docs : List Json) (id : Text) : Prop :=
  ∃ before d after, docs = before ++ d :: after ∧ Document.interfaceId d = .ok id ∧
    (known.has id = true ∨ ∃ earlier ∈ before, Document.interfaceId earlier = .ok id)

/-- The error is that of one interface alone, or an id is given again. -/
def Blames (known : Directory Json) (docs : List Json) (e : ModelError) : Prop :=
  (∃ d ∈ docs, Document.interfaceId d = .error e) ∨
    ∃ id, e = .invalidDocument (.redefined id) ∧ Redefines known docs id

section
variable {known next : Directory Json} {docs more : List Json} {e : ModelError}

theorem Blames.append_right (h : Blames known docs e) : Blames known (docs ++ more) e := by
  rcases h with ⟨d, hd, he⟩ | ⟨id, he, before, d, after, rfl, hid, hwhen⟩
  · exact Or.inl ⟨d, List.mem_append_left _ hd, he⟩
  · exact Or.inr ⟨id, he, before, d, after ++ more, by simp, hid, hwhen⟩

theorem Blames.append_left (henter : docs.foldlM enterOne known = .ok next)
    (h : Blames next more e) : Blames known (docs ++ more) e := by
  obtain ⟨hvalid, -, -, hfind⟩ := foldlM_enterOne_eq_ok henter
  rcases h with ⟨d, hd, he⟩ | ⟨id, he, before, d, after, rfl, hid, hwhen⟩
  · exact Or.inl ⟨d, List.mem_append_right _ hd, he⟩
  · refine Or.inr ⟨id, he, docs ++ before, d, after, by simp, hid, ?_⟩
    rcases hwhen with hhas | ⟨earlier, hearlier, hearlierId⟩
    · obtain ⟨document, hdocument⟩ := Option.isSome_iff_exists.mp hhas
      rcases (hfind id document).mp hdocument with hknown | ⟨hmem, hdocumentId⟩
      · exact Or.inl (Option.isSome_iff_exists.mpr ⟨document, hknown⟩)
      · refine Or.inr ⟨document, List.mem_append_left _ hmem, ?_⟩
        rw [hvalid document hmem, hdocumentId]
    · exact Or.inr ⟨earlier, List.mem_append_right _ hearlier, hearlierId⟩

end

mutual

theorem enter_eq_error (document : Json) {known : Directory Json} {e : ModelError}
    (h : enter known document = .error e) : Blames known (written document) e := by
  match document with
  | .object fields =>
    have hself : Json.object fields ∈ written (.object fields) := mem_written_self rfl
    unfold enter at h
    rcases bind_eq_error.mp h with h | ⟨id, hid, h⟩
    · exact Or.inl ⟨_, hself, h⟩
    · rcases bind_eq_error.mp h with h | ⟨next, hnext, h⟩
      · exact (enterInline_eq_error fields h).append_right
      · dsimp only at h
        split at h
        · next hhas =>
          cases h
          have hlast : Blames next [.object fields] (.invalidDocument (.redefined id)) :=
            Or.inr ⟨id, rfl, [], _, [], rfl, hid, Or.inl hhas⟩
          exact hlast.append_left ((enterInline_eq_ok fields).mp hnext)
        · cases h
  | .array items => exact enterItems_eq_error items h
  | .null | .bool _ | .number _ | .string _ => cases h

theorem enterInline_eq_error (fields : List (Text × Json)) {known : Directory Json}
    {e : ModelError} (h : enterInline known fields = .error e) :
    Blames known (writtenInline fields) e := by
  match fields with
  | [] => cases h
  | (name, value) :: rest =>
    unfold enterInline at h
    unfold writtenInline
    split at h
    · next hname =>
      rw [if_pos hname]
      exact enter_eq_error value h
    · next hname =>
      rw [if_neg hname]
      exact enterInline_eq_error rest h

theorem enterItems_eq_error (items : List Json) {known : Directory Json} {e : ModelError}
    (h : enterItems known items = .error e) : Blames known (writtenAmong items) e := by
  match items with
  | [] => cases h
  | item :: items =>
    unfold enterItems at h
    unfold writtenAmong
    dsimp only at h
    split at h
    · next hobject =>
      rw [if_pos hobject]
      rcases bind_eq_error.mp h with h | ⟨next, hnext, h⟩
      · exact (enter_eq_error item h).append_right
      · exact (enterItems_eq_error items h).append_left ((enter_eq_ok item).mp hnext)
    · next hobject =>
      rw [if_neg hobject]
      exact enterItems_eq_error items h

end

/-! ### Batches -/

theorem enterItems_not_redefined {batch documents : List Json}
    (hflat : Document.flatten batch = .ok documents) (h : (definedIds batch).Nodup) {id : Text} :
    enterItems Directory.empty documents ≠ .error (.invalidDocument (.redefined id)) := by
  intro herror
  rcases enterItems_eq_error documents herror with ⟨d, -, hd⟩ | ⟨id', he, hredefines⟩
  · exact (Document.fails_interfaceId d).not_redefined hd
  · obtain ⟨before, d, after, hsplit, hid, hwhen⟩ := hredefines
    rcases hwhen with hhas | ⟨earlier, hearlier, hearlierId⟩
    · simp [Directory.has] at hhas
    · rw [definedIds, ← writtenAmong_flatten hflat, hsplit, List.filterMap_append,
        List.filterMap_cons_some (Document.definedId?_eq_some.mpr hid)] at h
      have hmem : id' ∈ before.filterMap Document.definedId? :=
        List.mem_filterMap.mpr ⟨earlier, hearlier, Document.definedId?_eq_some.mpr hearlierId⟩
      exact List.disjoint_of_nodup_append h hmem List.mem_cons_self

/-! ### Documents that can be read alone -/

/-- A document that can be entered by itself: all that is written in it is an interface, each with
an id of its own. -/
structure Enterable (document : Json) : Prop where
  object : document.isObject = true
  valid : ∀ d ∈ written document, Document.interfaceId d = .ok (Document.id d)
  distinct : ((written document).map Document.id).Nodup

theorem enterable_of_reads {resolver : Resolver σ} {rounds : Nat} {document : Json} {s : σ}
    {interfaces : Directory Interface} (hobject : document.isObject = true)
    (h : ((readInterfaces rounds resolver [document]).run s).1 = .ok interfaces) :
    Enterable document := by
  rw [run_readInterfaces] at h
  obtain ⟨known, hknown, -⟩ := bind_eq_ok.mp h
  have hwritten : writtenAmong [document] = written document := by
    simp [writtenAmong, hobject]
  rcases collect_begins [document] with ⟨e, -, -, hrun⟩ | ⟨entered, hknows, -⟩
  · rw [hrun] at hknown
    cases hknown
  · obtain ⟨documents, hflat, hbrings⟩ := hknows
    rw [Document.flatten_objects (List.forall_mem_singleton.mpr hobject), Except.ok.injEq] at hflat
    subst hflat
    rw [List.flatMap_nil, List.append_nil] at hbrings
    have hvalid := hbrings.valid
    have hdistinct := hbrings.distinct
    rw [hwritten] at hvalid hdistinct
    exact ⟨hobject, hvalid, hdistinct⟩

theorem Enterable.writtenIds_nodup {document : Json} (h : Enterable document) :
    (writtenIds document).Nodup := by
  unfold writtenIds
  rw [if_pos h.object]
  exact h.distinct

theorem mem_writtenIds_iff {document : Json} (h : document.isObject = true) {id : Text} :
    id ∈ writtenIds document ↔ id ∈ inlineIds document ∨ id = Document.id document := by
  unfold writtenIds inlineIds
  rw [if_pos h]
  constructor
  · intro hid
    obtain ⟨d, hd, rfl⟩ := List.mem_map.mp hid
    rcases (mem_written h).mp hd with hd | rfl
    · exact Or.inl (List.mem_map_of_mem hd)
    · exact Or.inr rfl
  · rintro (hid | rfl)
    · obtain ⟨d, hd, rfl⟩ := List.mem_map.mp hid
      exact List.mem_map_of_mem ((mem_written h).mpr (Or.inl hd))
    · exact List.mem_map_of_mem (mem_written_self h)

/-! ### Documents that are entered together -/

/-- A document has an interface with the id written inside of it that is known already, or that
another one of the documents brings as well. -/
def Clashes (known : Directory Json) (documents : List Json) (id : Text) : Prop :=
  ∃ d ∈ documents, id ∈ inlineIds d ∧
    (known.has id = true ∨ ∃ e ∈ documents, e ≠ d ∧ id ∈ writtenIds e)

/-- Different documents with different ids, none of which is known, and each of them could be
entered alone. -/
structure Fresh (known : Directory Json) (documents : List Json) : Prop where
  nodup : documents.Nodup
  enterable : ∀ d ∈ documents, Enterable d
  unknown : ∀ d ∈ documents, known.has (Document.id d) = false
  apart : ∀ d ∈ documents, ∀ e ∈ documents, Document.id d = Document.id e → d = e

section
variable {known : Directory Json} {documents : List Json} {id : Text}

theorem duplicate_flatMap {α β : Type} {f : α → List β} {b : β} {as : List α}
    (h : List.Duplicate b (as.flatMap f)) :
    (∃ a ∈ as, List.Duplicate b (f a)) ∨ ∃ a a', [a, a'].Sublist as ∧ b ∈ f a ∧ b ∈ f a' := by
  induction as with
  | nil => cases h
  | cons a as ih =>
    rw [List.flatMap_cons, List.duplicate_iff_sublist, List.sublist_append_iff] at h
    obtain ⟨first, second, hsplit, hfirst, hsecond⟩ := h
    match first, hsplit with
    | [], hsplit =>
      rw [List.nil_append] at hsplit
      subst hsplit
      rcases ih (List.duplicate_iff_sublist.mpr hsecond) with ⟨a', ha', hb⟩ | ⟨a', a'', hsub, hb⟩
      · exact Or.inl ⟨a', List.mem_cons_of_mem _ ha', hb⟩
      · exact Or.inr ⟨a', a'', hsub.cons a, hb⟩
    | [x], hsplit =>
      rw [List.singleton_append, List.cons.injEq] at hsplit
      obtain ⟨rfl, rfl⟩ := hsplit
      obtain ⟨a', ha', hb⟩ := List.mem_flatMap.mp (List.singleton_sublist.mp hsecond)
      refine Or.inr ⟨a, a', ?_, List.singleton_sublist.mp hfirst, hb⟩
      exact (List.singleton_sublist.mpr ha').cons_cons a
    | x :: y :: rest, hsplit =>
      rw [List.cons_append, List.cons_append, List.cons.injEq, List.cons.injEq] at hsplit
      obtain ⟨rfl, rfl, hnil⟩ := hsplit
      obtain ⟨rfl, -⟩ := List.append_eq_nil_iff.mp hnil.symm
      exact Or.inl ⟨a, List.mem_cons_self, List.duplicate_iff_sublist.mpr hfirst⟩

theorem Fresh.clashes_of_shared (h : Fresh known documents) {d e : Json} (hd : d ∈ documents)
    (he : e ∈ documents) (hne : d ≠ e) (hid : id ∈ writtenIds d) (hid' : id ∈ writtenIds e) :
    Clashes known documents id := by
  rcases (mem_writtenIds_iff (h.enterable d hd).object).mp hid with hinline | hown
  · exact ⟨d, hd, hinline, Or.inr ⟨e, he, hne.symm, hid'⟩⟩
  · rcases (mem_writtenIds_iff (h.enterable e he).object).mp hid' with hinline | hown'
    · exact ⟨e, he, hinline, Or.inr ⟨d, hd, hne, hid⟩⟩
    · exact absurd (h.apart d hd e he (hown.symm.trans hown')) hne

theorem Fresh.clashes_of_redefines (h : Fresh known documents)
    (hredefines : Redefines known (writtenAmong documents) id) : Clashes known documents id := by
  obtain ⟨before, interface, after, hsplit, hid, hwhen⟩ := hredefines
  have hinterface := Document.id_of_interfaceId hid
  rcases hwhen with hknown | ⟨earlier, hearlier, hearlierId⟩
  · have hmem : interface ∈ writtenAmong documents := by
      rw [hsplit]
      simp
    obtain ⟨d, hd, hobject, hwritten⟩ := mem_writtenAmong.mp hmem
    refine ⟨d, hd, ?_, Or.inl hknown⟩
    have hdid := mem_writtenIds hobject hwritten
    rw [hinterface] at hdid
    rcases (mem_writtenIds_iff hobject).mp hdid with hinline | hown
    · exact hinline
    · have hunknown := h.unknown d hd
      rw [← hown, hknown] at hunknown
      cases hunknown
  · have hduplicate : List.Duplicate id (documents.flatMap writtenIds) := by
      rw [← ids_writtenAmong, hsplit, List.map_append, List.map_cons, hinterface,
        List.duplicate_iff_sublist]
      have hfirst : [id].Sublist (before.map Document.id) := by
        rw [List.singleton_sublist, ← Document.id_of_interfaceId hearlierId]
        exact List.mem_map_of_mem hearlier
      exact hfirst.append (List.singleton_sublist.mpr List.mem_cons_self)
    rcases duplicate_flatMap hduplicate with ⟨d, hd, htwice⟩ | ⟨d, e, hsub, hid, hid'⟩
    · exact absurd (h.enterable d hd).writtenIds_nodup htwice.not_nodup
    · have hne : d ≠ e := by
        have hpair := h.nodup.sublist hsub
        simpa using hpair
      exact h.clashes_of_shared (hsub.subset List.mem_cons_self)
        (hsub.subset (List.mem_cons_of_mem _ List.mem_cons_self)) hne hid hid'

/-- Such documents are refused for an id that is given again, and for nothing else. -/
theorem Fresh.enterItems_eq_error (h : Fresh known documents) {e : ModelError}
    (herror : enterItems known documents = .error e) :
    ∃ id, e = .invalidDocument (.redefined id) ∧ Clashes known documents id := by
  rcases Resolution.enterItems_eq_error documents herror with ⟨interface, hmem, he⟩ | ⟨id, he, hid⟩
  · obtain ⟨d, hd, -, hwritten⟩ := mem_writtenAmong.mp hmem
    rw [(h.enterable d hd).valid interface hwritten] at he
    cases he
  · exact ⟨id, he, h.clashes_of_redefines hid⟩

theorem not_clashes_of_enterItems {known' : Directory Json}
    (hobjects : ∀ d ∈ documents, d.isObject = true)
    (h : enterItems known documents = .ok known') : ¬Clashes known documents id := by
  obtain ⟨-, hdistinct, hunknown, -⟩ := foldlM_enterOne_eq_ok ((enterItems_eq_ok documents).mp h)
  rintro ⟨d, hd, hinline, hwhen⟩
  have hid : id ∈ writtenIds d := (mem_writtenIds_iff (hobjects d hd)).mpr (Or.inl hinline)
  rcases hwhen with hknown | ⟨e, he, hne, hid'⟩
  · have hmem : id ∈ (writtenAmong documents).map Document.id := by
      rw [ids_writtenAmong]
      exact List.mem_flatMap.mpr ⟨d, hd, hid⟩
    obtain ⟨interface, hinterface, rfl⟩ := List.mem_map.mp hmem
    rw [hunknown interface hinterface] at hknown
    cases hknown
  · exact writtenIds_disjoint hdistinct he hd hne hid' hid

theorem Fresh.learn_redefined {answer : List Json} {ids : List Text}
    (hflat : Document.flatten answer = .ok answer)
    (h : Fresh known (answer.filter (isNew known)))
    (hlearn : learn known ids answer = .error (.invalidDocument (.redefined id))) :
    Clashes known (answer.filter (isNew known)) id := by
  unfold learn at hlearn
  rw [hflat] at hlearn
  rcases bind_eq_error.mp hlearn with hlearn | ⟨documents, hdocuments, hlearn⟩
  · cases hlearn
  · cases hdocuments
    rcases bind_eq_error.mp hlearn with hlearn | ⟨next, -, hlearn⟩
    · obtain ⟨id', he, hclashes⟩ := h.enterItems_eq_error hlearn
      cases he
      exact hclashes
    · dsimp only at hlearn
      split at hlearn
      · cases hlearn
      · cases hlearn

theorem Fresh.redefined_of_clashes {answer : List Json} {ids : List Text}
    (hflat : Document.flatten answer = .ok answer)
    (h : Fresh known (answer.filter (isNew known)))
    (hclashes : Clashes known (answer.filter (isNew known)) id) :
    ∃ id', learn known ids answer = .error (.invalidDocument (.redefined id')) := by
  cases henter : enterItems known (answer.filter (isNew known)) with
  | ok next =>
    have hobjects : ∀ d ∈ answer.filter (isNew known), d.isObject = true :=
      fun d hd => (h.enterable d hd).object
    exact absurd hclashes (not_clashes_of_enterItems hobjects henter)
  | error e =>
    obtain ⟨id', rfl, -⟩ := h.enterItems_eq_error henter
    refine ⟨id', bind_eq_error.mpr (Or.inr ⟨answer, hflat, ?_⟩)⟩
    exact bind_eq_error.mpr (Or.inl henter)

end

/-! ### Rounds of stored documents -/

theorem complete_preserves {resolver : Resolver σ} {holds : σ → Prop}
    (h : ∀ ids s, ids.Nodup → holds s → holds ((resolver ids).run s).2) (rounds : Nat)
    (known : Directory Json) {s : σ} (hs : holds s) :
    holds ((complete resolver rounds known).run s).2 := by
  induction rounds generalizing known s with
  | zero =>
    rcases asks_or_ends 0 known with ⟨ids, hm, hne⟩ | ⟨outcome, -, hrun⟩
    · rw [run_complete_exhausted hm hne]
      exact hs
    · rw [hrun]
      exact hs
  | succ rounds ih =>
    rcases asks_or_ends (rounds + 1) known with ⟨ids, hm, hne⟩ | ⟨outcome, -, hrun⟩
    · have hnext := h ids s (missing_nodup hm) hs
      rw [run_complete_succ hm hne]
      rcases hanswer : (resolver ids).run s with ⟨e | answer, s'⟩
      · rw [hanswer] at hnext
        exact hnext
      · rw [hanswer] at hnext
        dsimp only
        cases learn known ids answer with
        | error e => exact hnext
        | ok learned => exact ih learned hnext
    · rw [hrun]
      exact hs

end Resolution

def Exchange.Told (stored : List Json) (exchange : Exchange) : Prop :=
  ∃ answer, exchange.answer = .ok answer ∧ answer.Nodup ∧
    ∀ v, v ∈ answer ↔ v ∈ stored ∧ ∃ id ∈ exchange.asked, v.stringField? "@id" = some id

/-- A resolver that tells stored documents, one for each id, each of which can be read alone with
it. -/
structure Resolver.Serves (resolver : Resolver σ) (stored : List Json) (holds : σ → Prop) :
    Prop where
  tells : resolver.Tells stored holds
  unique : (stored.filterMap (Json.stringField? "@id")).Nodup
  alone : ∀ v ∈ stored, ∃ rounds s interfaces, holds s ∧
    ((readInterfaces rounds resolver [v]).run s).1 = .ok interfaces

namespace Resolution

theorem told_of_recorded {resolver : Resolver σ} {stored : List Json} {holds : σ → Prop}
    (htells : resolver.Tells stored holds) {rounds : Nat} {known : Directory Json} {s s' : σ}
    {outcome : Except ModelError (Directory Json)} {record : List Exchange} (hs : holds s)
    (hrun : (complete resolver.recorded rounds known).run (s, []) = (outcome, s', record)) :
    ∀ exchange ∈ record, exchange.Told stored := by
  have hkeeps : ∀ ids (t : σ × List Exchange), ids.Nodup →
      (holds t.1 ∧ ∀ exchange ∈ t.2, exchange.Told stored) →
        holds ((resolver.recorded ids).run t).2.1 ∧
          ∀ exchange ∈ ((resolver.recorded ids).run t).2.2, exchange.Told stored := by
    rintro ids ⟨t, record⟩ hnodup ⟨ht, htold⟩
    obtain ⟨answer, t', hanswer, ht', hanswerNodup, hmem⟩ := htells.answers ids t hnodup ht
    rw [run_recorded, hanswer]
    refine ⟨ht', List.forall_mem_append.mpr ⟨htold, List.forall_mem_singleton.mpr ?_⟩⟩
    exact ⟨answer, rfl, hanswerNodup, hmem⟩
  have hend := complete_preserves hkeeps rounds known (s := (s, [])) ⟨hs, by simp⟩
  rw [hrun] at hend
  exact hend.2

theorem Fresh.of_told {resolver : Resolver σ} {stored : List Json} {holds : σ → Prop}
    (hserves : resolver.Serves stored holds) {round : Round}
    (htold : round.toExchange.Told stored) :
    ∃ answer, round.answer = .ok answer ∧ Document.flatten answer = .ok answer ∧
      round.brought = answer.filter (isNew round.known) ∧ Fresh round.known round.brought := by
  obtain ⟨⟨asked, given⟩, known⟩ := round
  obtain ⟨answer, rfl, hnodup, hmem⟩ := htold
  have hobject : ∀ v ∈ answer, v.isObject = true := by
    intro v hv
    obtain ⟨-, id, -, hid⟩ := (hmem v).mp hv
    cases v with
    | object fields => rfl
    | _ => cases hid
  have hflat := Document.flatten_objects hobject
  have hbrought : Round.brought ⟨⟨asked, .ok answer⟩, known⟩ = answer.filter (isNew known) :=
    brought_of_flatten hflat
  have hid : ∀ v ∈ answer, v.stringField? "@id" = some (Document.id v) := by
    intro v hv
    obtain ⟨-, id, -, hid⟩ := (hmem v).mp hv
    rw [Document.id, hid]
    rfl
  refine ⟨answer, rfl, hflat, hbrought, ?_⟩
  rw [hbrought]
  constructor
  · exact hnodup.filter _
  · intro d hd
    have hd := (List.mem_filter.mp hd).1
    obtain ⟨rounds, s, interfaces, -, hread⟩ := hserves.alone d ((hmem d).mp hd).1
    exact enterable_of_reads (hobject d hd) hread
  · intro d hd
    obtain ⟨hd, hnew⟩ := List.mem_filter.mp hd
    rw [isNew, hid d hd] at hnew
    simpa using hnew
  · intro d hd e he hsame
    have hd := (List.mem_filter.mp hd).1
    have he := (List.mem_filter.mp he).1
    apply eq_of_filterMap_nodup hserves.unique ((hmem d).mp hd).1 ((hmem e).mp he).1 (hid d hd)
    rw [hid e he, hsame]

end Resolution

/-- A document of the answer has an interface written inside of it that is known already, or that
another document of the answer brings as well. -/
def Round.Repeats (round : Round) (id : Text) : Prop :=
  Resolution.Clashes round.known round.brought id

namespace Resolution

section
variable {resolver : Resolver σ} {stored : List Json} {holds : σ → Prop} {rounds : Nat}
  {known : Directory Json} {history : List Round} {outcome : Except ModelError (Directory Json)}

theorem Course.repeats_of_redefined (hserves : resolver.Serves stored holds)
    (h : Course rounds known history outcome)
    (htold : ∀ round ∈ history, round.toExchange.Told stored) {id : Text}
    (houtcome : outcome = .error (.invalidDocument (.redefined id))) :
    ∃ round, history.getLast? = some round ∧ round.Repeats id := by
  induction h with
  | unreadable h =>
    cases houtcome
    exact absurd h (fails_missing _).not_redefined
  | done | exhausted => cases houtcome
  | refused =>
    obtain ⟨answer, hanswer, -⟩ := htold _ (List.mem_singleton_self _)
    cases hanswer
  | @rejected rounds known ids answer e h hne hlearn =>
    obtain ⟨answer', hanswer, hflat, hbrought, hfresh⟩ :=
      Fresh.of_told hserves (htold _ (List.mem_singleton_self _))
    cases hanswer
    cases houtcome
    refine ⟨⟨⟨ids, .ok answer⟩, known⟩, rfl, ?_⟩
    unfold Round.Repeats
    rw [hbrought] at hfresh ⊢
    exact hfresh.learn_redefined hflat hlearn
  | @next _ _ _ _ _ history _ _ _ _ _ ih =>
    rw [List.forall_mem_cons] at htold
    obtain ⟨round, hlast, hrepeats⟩ := ih htold.2 houtcome
    refine ⟨round, ?_, hrepeats⟩
    rw [List.getLast?_cons, hlast]
    rfl

theorem Course.redefined_of_repeats (hserves : resolver.Serves stored holds)
    (h : Course rounds known history outcome)
    (htold : ∀ round ∈ history, round.toExchange.Told stored)
    (hrepeats : ∃ round ∈ history, ∃ id, round.Repeats id) :
    ∃ id, outcome = .error (.invalidDocument (.redefined id)) := by
  have hfails : ∀ {known ids answer} {id : Text},
      Exchange.Told stored ⟨ids, .ok answer⟩ → Round.Repeats ⟨⟨ids, .ok answer⟩, known⟩ id →
        ∃ id', learn known ids answer = .error (.invalidDocument (.redefined id')) := by
    intro known ids answer id htold hrepeats
    have hround : (Round.mk ⟨ids, .ok answer⟩ known).toExchange.Told stored := htold
    obtain ⟨answer', hanswer, hflat, hbrought, hfresh⟩ := Fresh.of_told hserves hround
    cases hanswer
    unfold Round.Repeats at hrepeats
    rw [hbrought] at hfresh hrepeats
    exact hfresh.redefined_of_clashes hflat hrepeats
  induction h with
  | unreadable | done | exhausted => simp at hrepeats
  | refused =>
    obtain ⟨answer, hanswer, -⟩ := htold _ (List.mem_singleton_self _)
    cases hanswer
  | rejected _ _ hlearn =>
    obtain ⟨round, hround, id, hid⟩ := hrepeats
    obtain rfl := List.mem_singleton.mp hround
    obtain ⟨id', hid'⟩ := hfails (htold _ (List.mem_singleton_self _)) hid
    rw [hid', Except.error.injEq] at hlearn
    exact ⟨id', by rw [hlearn]⟩
  | next _ _ hlearn _ ih =>
    rw [List.forall_mem_cons] at htold
    obtain ⟨round, hround, id, hid⟩ := hrepeats
    rcases List.mem_cons.mp hround with rfl | hround
    · obtain ⟨id', hid'⟩ := hfails htold.1 hid
      rw [hid'] at hlearn
      cases hlearn
    · exact ih htold.2 ⟨round, hround, id, hid⟩

end

theorem unasked_not_redefined {resolver : Resolver σ} {batch : List Json}
    (hbatch : (definedIds batch).Nodup)
    (hnone : ∀ final, ¬Knows batch [] final) {rounds : Nat} {s : σ} {e : ModelError}
    (hrun : (collect rounds resolver batch).run s = (.error e, s)) (id : Text) :
    e ≠ .invalidDocument (.redefined id) := by
  rintro rfl
  cases hflat : Document.flatten batch with
  | error e =>
    simp only [collect, run_bind, run_lift, hflat] at hrun
    cases hrun
    exact (Document.fails_flatten batch).not_redefined hflat
  | ok documents =>
    cases henter : enterItems Directory.empty documents with
    | error e =>
      simp only [collect, run_bind, run_lift, hflat, henter] at hrun
      cases hrun
      exact enterItems_not_redefined hflat hbatch henter
    | ok entered =>
      apply hnone entered
      refine ⟨documents, hflat, ?_⟩
      rw [List.flatMap_nil, List.append_nil]
      exact Brings.nothing.enterItems henter

end Resolution

/-- Stored models that can each be read alone are refused together exactly if, in the last round, an
interface written inside of one of them is known already or comes with another one as well. A
document that is known itself is passed over. -/
theorem stored_models_compose {resolver : Resolver σ} {stored batch : List Json} {holds : σ → Prop}
    (hserves : resolver.Serves stored holds)
    (hbatch : (Resolution.definedIds batch).Nodup)
    (rounds : Nat) {s : σ} (hs : holds s) :
    ∃ history outcome s', (readInterfaces rounds resolver batch).run s = (outcome, s') ∧
      (readInterfaces rounds resolver.recorded batch).run (s, []) =
        (outcome, s', history.map Round.toExchange) ∧
      Resolution.Lawful rounds batch history outcome ∧
      (∀ round ∈ history, round.toExchange.Told stored) ∧
      (∀ id, outcome = .error (.invalidDocument (.redefined id)) →
        ∃ round, history.getLast? = some round ∧ round.Repeats id) ∧
      ((∃ round ∈ history, ∃ id, round.Repeats id) →
        ∃ id, outcome = .error (.invalidDocument (.redefined id))) := by
  rw [Resolution.run_readInterfaces, Resolution.run_readInterfaces]
  rcases Resolution.collect_begins batch with ⟨e, he, hnone, hrun⟩ | ⟨entered, hknows, hrun⟩
  · rw [hrun, hrun]
    refine ⟨[], .error e, s, rfl, rfl, .unasked he hnone, by simp, ?_, by simp⟩
    intro id hid
    have hnot := Resolution.unasked_not_redefined hbatch hnone (hrun σ rounds resolver s) id
    exact absurd (Except.error.inj hid) hnot
  · obtain ⟨history, outcome, s', hcourse, hplain, hrecorded⟩ :=
      Resolution.complete_recorded resolver rounds entered s []
    have hmissing : ∀ final, outcome = .ok final → Resolution.missing final = .ok [] := by
      rintro final rfl
      exact Resolution.complete_missing hplain
    have htold : ∀ round ∈ history, round.toExchange.Told stored := by
      intro round hround
      apply Resolution.told_of_recorded hserves.tells hs hrecorded
      exact List.mem_append_right _ (List.mem_map_of_mem hround)
    rw [hrun, hrun, hplain, hrecorded]
    refine ⟨history, outcome >>= Resolution.interfacesOf, s', rfl, rfl,
      hcourse.lawful hknows hmissing, htold, ?_, ?_⟩
    · intro id hid
      rcases bind_eq_error.mp hid with hid | ⟨final, hfinal, hid⟩
      · exact hcourse.repeats_of_redefined hserves htold hid
      · exact absurd hid (Resolution.fails_interfacesOf (hmissing final hfinal)).not_redefined
    · intro hrepeats
      obtain ⟨id, hid⟩ := hcourse.redefined_of_repeats hserves htold hrepeats
      exact ⟨id, bind_eq_error.mpr (Or.inl hid)⟩

def inlineSpace : Json :=
  .object [("@id", .string "dtmi:example:Space;1"), ("@type", .string "Interface")]

def officeModel : Json :=
  .object [("@id", .string "dtmi:example:Office;1"), ("@type", .string "Interface"),
    ("extends", inlineSpace)]

def hallModel : Json :=
  .object [("@id", .string "dtmi:example:Hall;1"), ("@type", .string "Interface"),
    ("extends", inlineSpace)]

def buildingModel : Json :=
  .object [("@id", .string "dtmi:example:Building;1"), ("@type", .string "Interface"),
    ("extends", .array [.string "dtmi:example:Office;1", .string "dtmi:example:Hall;1"])]

/-- Each of the two can be read alone. -/
theorem serves_rooms : (Resolver.ofDocuments (σ := Unit) [officeModel, hallModel]).Serves
    [officeModel, hallModel] fun _ => True := by
  have hunique : ([officeModel, hallModel].filterMap (Json.stringField? "@id")).Nodup := by decide
  refine ⟨Resolver.tells_ofDocuments hunique, hunique, ?_⟩
  have hoffice : ∃ interfaces, ((readInterfaces 0 (Resolver.ofDocuments [officeModel, hallModel])
      [officeModel]).run ()).1 = .ok interfaces := ⟨_, rfl⟩
  have hhall : ∃ interfaces, ((readInterfaces 0 (Resolver.ofDocuments [officeModel, hallModel])
      [hallModel]).run ()).1 = .ok interfaces := ⟨_, rfl⟩
  intro v hv
  rcases List.mem_cons.mp hv with rfl | hv
  · obtain ⟨interfaces, h⟩ := hoffice
    exact ⟨0, (), interfaces, trivial, h⟩
  · obtain rfl := List.mem_singleton.mp hv
    obtain ⟨interfaces, h⟩ := hhall
    exact ⟨0, (), interfaces, trivial, h⟩

theorem building_defines_once : (Resolution.definedIds [buildingModel]).Nodup := by decide

theorem building_is_refused :
    ((readInterfaces 1 (Resolver.ofDocuments [officeModel, hallModel]) [buildingModel]).run ()).1 =
      .error (.invalidDocument (.redefined "dtmi:example:Space;1")) := rfl

theorem building_repeats_space :
    (Resolver.ofDocuments (σ := Unit) [officeModel, hallModel]).Serves
      [officeModel, hallModel] (fun _ => True) ∧
    ∃ history : List Round, ∃ round, history.getLast? = some round ∧
      round.Repeats "dtmi:example:Space;1" ∧
      (readInterfaces 1 (Resolver.ofDocuments [officeModel, hallModel]).recorded
        [buildingModel]).run ((), []) =
          (.error (.invalidDocument (.redefined "dtmi:example:Space;1")), (),
            history.map Round.toExchange) := by
  obtain ⟨history, outcome, s', hrun, hrecorded, -, -, hrepeats, -⟩ :=
    stored_models_compose serves_rooms building_defines_once 1 (s := ()) trivial
  have houtcome := building_is_refused
  rw [hrun] at houtcome
  dsimp only at houtcome
  subst houtcome
  obtain ⟨round, hlast, hround⟩ := hrepeats _ rfl
  exact ⟨serves_rooms, history, round, hlast, hround, hrecorded⟩

/-- Two stored models that are each fine are refused together, since the same interface is written
inside of both. -/
theorem shared_inline_model_clashes :
    (Resolver.ofDocuments (σ := Unit) [officeModel, hallModel]).Serves
      [officeModel, hallModel] (fun _ => True) ∧
    (Resolution.definedIds [buildingModel]).Nodup ∧
    ((readInterfaces 1 (Resolver.ofDocuments [officeModel, hallModel]) [buildingModel]).run ()).1 =
      .error (.invalidDocument (.redefined "dtmi:example:Space;1")) :=
  ⟨serves_rooms, building_defines_once, building_is_refused⟩

end TwinGraph
