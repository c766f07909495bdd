import TwinGraph.Proofs.Model.Faults

/-! The rounds of questions of a resolution: what is asked in each, what an answer adds to the
known documents, and what the outcome says about the last of them. -/
namespace TwinGraph

open Outcome

variable {σ : Type}

structure Exchange where
  asked : List Text
  answer : Except ModelError (List Json)

/-- The same resolver, which also writes down what it is asked and what it answers. -/
def Resolver.recorded (resolver : Resolver σ) : Resolver (σ × List Exchange) := fun ids =>
  ExceptT.mk fun (s, record) =>
    let (answer, s') := (resolver ids).run s
    (answer, s', record ++ [⟨ids, answer⟩])

/-- A request together with the documents that were known when it was made. -/
structure Round extends Exchange where
  known : Directory Json

/-- What the answer adds to the known documents: those in it whose ids are new. -/
def Round.brought (round : Round) : List Json :=
  match round.answer >>= Document.flatten with
  | .ok documents => documents.filter (Resolution.isNew round.known)
  | .error _ => []

/-- A round replaces nothing that was known, and all that it asked for is known after it. -/
structure Round.LeadsTo (round : Round) (known : Directory Json) : Prop where
  kept : ∀ id document, round.known.find? id = some document → known.find? id = some document
  answered : ∀ id ∈ round.asked, known.has id = true

theorem Round.LeadsTo.trans {round : Round} {known final : Directory Json}
    (h : round.LeadsTo known)
    (hgrows : ∀ id document, known.find? id = some document → final.find? id = some document) :
    round.LeadsTo final := by
  refine ⟨fun id document hd => hgrows id document (h.kept id document hd), fun id hid => ?_⟩
  obtain ⟨document, hd⟩ := Option.isSome_iff_exists.mp (h.answered id hid)
  exact Option.isSome_iff_exists.mpr ⟨document, hgrows id document hd⟩

def Document.Mentions (document : Json) (id : Text) : Prop :=
  (∃ parents, Document.parentIds document = .ok parents ∧ id ∈ parents) ∨
    id ∈ Document.componentIds document

namespace Resolution

/-- Known are the interfaces of the batch and those that the rounds brought, each once. -/
def Knows (batch : List Json) (history : List Round) (known : Directory Json) : Prop :=
  ∃ documents, Document.flatten batch = .ok documents ∧
    Brings (documents ++ history.flatMap Round.brought) known

structure Asks (known : Directory Json) (ids : List Text) : Prop where
  nonempty : ids ≠ []
  increasing : ids.Pairwise fun a b => Text.before a b = true
  valid : ∀ id ∈ ids, ModelId.isValid id = true
  mem_iff : ∀ id, id ∈ ids ↔ known.has id = false ∧
    ∃ name document, known.find? name = some document ∧ Document.Mentions document id

/-- How rounds go on from what is known, and how they end. -/
inductive Course : Nat → Directory Json → List Round → Except ModelError (Directory Json) → Prop
  | unreadable {rounds : Nat} {known : Directory Json} {e : ModelError}
      (h : missing known = .error e) : Course rounds known [] (.error e)
  | done {rounds : Nat} {known : Directory Json} (h : missing known = .ok []) :
      Course rounds known [] (.ok known)
  | exhausted {known : Directory Json} {ids : List Text} (h : missing known = .ok ids)
      (hne : ids ≠ []) : Course 0 known [] (.error (.outOfRounds ids))
  | refused {rounds : Nat} {known : Directory Json} {ids : List Text} {e : ModelError}
      (h : missing known = .ok ids) (hne : ids ≠ []) :
      Course (rounds + 1) known [⟨⟨ids, .error e⟩, known⟩] (.error e)
  | rejected {rounds : Nat} {known : Directory Json} {ids : List Text} {answer : List Json}
      {e : ModelError} (h : missing known = .ok ids) (hne : ids ≠ [])
      (hlearn : learn known ids answer = .error e) :
      Course (rounds + 1) known [⟨⟨ids, .ok answer⟩, known⟩] (.error e)
  | next {rounds : Nat} {known learned : Directory Json} {ids : List Text} {answer : List Json}
      {history : List Round} {outcome : Except ModelError (Directory Json)}
      (h : missing known = .ok ids) (hne : ids ≠ [])
      (hlearn : learn known ids answer = .ok learned)
      (hrest : Course rounds learned history outcome) :
      Course (rounds + 1) known (⟨⟨ids, .ok answer⟩, known⟩ :: history) outcome

section
variable {batch : List Json} {past history : List Round} {known learned : Directory Json}
  {ids : List Text} {answer : List Json} {rounds : Nat}
  {outcome : Except ModelError (Directory Json)}

theorem sortedIds_increasing (ids : List Text) :
    (sortedIds ids).Pairwise fun a b => Text.before a b = true :=
  List.pairwise_map.mpr (Directory.sorted _)

theorem mem_references {document : Json} {refs : List Text} (h : references document = .ok refs)
    (id : Text) : id ∈ refs ↔ Document.Mentions document id := by
  obtain ⟨parents, hparents, rfl, -⟩ := references_eq_ok.mp h
  rw [List.mem_append]
  refine or_congr_left ⟨fun hid => ⟨parents, hparents, hid⟩, ?_⟩
  rintro ⟨parents', hparents', hid⟩
  rw [hparents] at hparents'
  exact Except.ok.inj hparents' ▸ hid

theorem asks_of_missing (h : missing known = .ok ids) (hne : ids ≠ []) : Asks known ids := by
  obtain ⟨hrefs, hmem⟩ := missing_eq_ok h
  refine ⟨hne, ?_, fun id hid => ?_, fun id => (hmem id).trans (and_congr_right fun _ => ?_)⟩
  · obtain ⟨lists, -, h⟩ := bind_eq_ok.mp h
    obtain rfl := pure_eq_ok.mp h
    exact sortedIds_increasing _
  · obtain ⟨-, name, document, refs, -, hr, hid⟩ := (hmem id).mp hid
    obtain ⟨parents, -, rfl, hvalid⟩ := references_eq_ok.mp hr
    exact hvalid id hid
  · constructor
    · rintro ⟨name, document, refs, hd, hr, hid⟩
      exact ⟨name, document, hd, (mem_references hr id).mp hid⟩
    · rintro ⟨name, document, hd, hid⟩
      obtain ⟨refs, hr⟩ := hrefs name document hd
      exact ⟨name, document, refs, hd, hr, (mem_references hr id).mpr hid⟩

theorem brought_of_flatten {documents : List Json} (h : Document.flatten answer = .ok documents) :
    Round.brought ⟨⟨ids, .ok answer⟩, known⟩ = documents.filter (isNew known) := by
  unfold Round.brought
  simp only [show (Except.ok answer >>= Document.flatten) = Document.flatten answer from rfl, h]

theorem leadsTo_of_learn (h : learn known ids answer = .ok learned) :
    Round.LeadsTo ⟨⟨ids, .ok answer⟩, known⟩ learned := by
  obtain ⟨documents, -, henter, hall⟩ := learn_eq_ok.mp h
  obtain ⟨-, -, -, hfind⟩ := foldlM_enterOne_eq_ok ((enterItems_eq_ok _).mp henter)
  exact ⟨fun id document hd => (hfind id document).mpr (Or.inl hd), hall⟩

theorem Knows.enter (hk : Knows batch past known) {documents : List Json}
    (hflat : Document.flatten answer = .ok documents)
    (henter : enterItems known (documents.filter (isNew known)) = .ok learned) :
    Knows batch (past ++ [⟨⟨ids, .ok answer⟩, known⟩]) learned := by
  obtain ⟨tops, htops, hb⟩ := hk
  refine ⟨tops, htops, ?_⟩
  rw [List.flatMap_append, List.flatMap_singleton, brought_of_flatten hflat, ← List.append_assoc]
  exact hb.enterItems henter

theorem Knows.learn (hk : Knows batch past known)
    (h : Resolution.learn known ids answer = .ok learned) :
    Knows batch (past ++ [⟨⟨ids, .ok answer⟩, known⟩]) learned := by
  obtain ⟨documents, hflat, henter, -⟩ := learn_eq_ok.mp h
  exact hk.enter hflat henter

theorem Brings.unique {tops : List Json} {known known' : Directory Json} (h : Brings tops known)
    (h' : Brings tops known') : known = known' := by
  refine Directory.ext_find? fun id => Option.ext fun document => ?_
  rw [h.find?, h'.find?]

theorem learn_eq_error {e : ModelError} (h : learn known ids answer = .error e) :
    e.InDocuments ∨ ∃ documents known', Document.flatten answer = .ok documents ∧
      enterItems known (documents.filter (isNew known)) = .ok known' ∧
      ids.filter (!known'.has ·) ≠ [] ∧ e = .unresolved (ids.filter (!known'.has ·)) := by
  rcases bind_eq_error.mp h with h | ⟨documents, hflat, h⟩
  · exact Or.inl ((Document.fails_flatten answer).inDocuments _ h)
  · rcases bind_eq_error.mp h with h | ⟨known', henter, h⟩
    · exact Or.inl (fails_enterItems known _ _ h)
    · dsimp only at h
      split at h
      · cases h
      · next hne =>
        cases h
        exact Or.inr
          ⟨documents, known', hflat, henter, fun he => hne (List.isEmpty_iff.mpr he), rfl⟩

theorem learn_of_undefined {documents : List Json} {known' : Directory Json}
    (hflat : Document.flatten answer = .ok documents)
    (henter : enterItems known (documents.filter (isNew known)) = .ok known')
    (hne : ids.filter (!known'.has ·) ≠ []) :
    learn known ids answer = .error (.unresolved (ids.filter (!known'.has ·))) := by
  unfold learn
  rw [hflat]
  refine bind_eq_error.mpr (Or.inr ⟨documents, rfl, ?_⟩)
  refine bind_eq_error.mpr (Or.inr ⟨known', henter, ?_⟩)
  dsimp only
  rw [if_neg fun he => hne (List.isEmpty_iff.mp he)]
  rfl

namespace Course

theorem asks (h : Course rounds known history outcome) :
    ∀ round ∈ history, Asks round.known round.asked := by
  induction h with
  | unreadable | done | exhausted => simp
  | refused h hne | rejected h hne => exact List.forall_mem_singleton.mpr (asks_of_missing h hne)
  | next h hne _ _ ih => exact List.forall_mem_cons.mpr ⟨asks_of_missing h hne, ih⟩

theorem length_le (h : Course rounds known history outcome) : history.length ≤ rounds := by
  induction h with
  | unreadable | done | exhausted => exact Nat.zero_le _
  | refused | rejected => exact Nat.le_add_left 1 _
  | next _ _ _ _ ih => exact Nat.succ_le_succ ih

theorem grows (h : Course rounds known history outcome) :
    (∀ round ∈ history, ∀ id document,
      known.find? id = some document → round.known.find? id = some document) ∧
    ∀ final, outcome = .ok final → ∀ id document,
      known.find? id = some document → final.find? id = some document := by
  induction h with
  | unreadable | exhausted => simp
  | done =>
    refine ⟨by simp, ?_⟩
    rintro final ⟨⟩ id document hd
    exact hd
  | refused | rejected => exact ⟨List.forall_mem_singleton.mpr fun _ _ hd => hd, by simp⟩
  | next _ _ hlearn _ ih =>
    have hkept := (leadsTo_of_learn hlearn).kept
    refine ⟨List.forall_mem_cons.mpr ⟨fun _ _ hd => hd, fun round hr id document hd => ?_⟩, ?_⟩
    · exact ih.1 round hr id document (hkept id document hd)
    · exact fun final hf id document hd => ih.2 final hf id document (hkept id document hd)

/-- Each round leads to what is known in every later one, which so asks for other ids. -/
theorem pairwise (h : Course rounds known history outcome) :
    history.Pairwise fun round later =>
      round.LeadsTo later.known ∧ round.asked.Disjoint later.asked := by
  induction h with
  | unreadable | done | exhausted => exact List.Pairwise.nil
  | refused | rejected => exact List.pairwise_singleton _ _
  | next _ _ hlearn hrest ih =>
    refine List.pairwise_cons.mpr ⟨fun later hl => ?_, ih⟩
    have hleads := (leadsTo_of_learn hlearn).trans (hrest.grows.1 later hl)
    refine ⟨hleads, fun id hid hid' => ?_⟩
    have hunknown := (((hrest.asks later hl).mem_iff id).mp hid').1
    rw [hleads.answered id hid] at hunknown
    cases hunknown

theorem leadsTo (h : Course rounds known history (.ok learned)) :
    ∀ round ∈ history, round.LeadsTo learned := by
  generalize ho : Except.ok learned = outcome at h
  induction h with
  | unreadable | done | exhausted => simp
  | refused | rejected => cases ho
  | next _ _ hlearn hrest ih =>
    exact List.forall_mem_cons.mpr
      ⟨(leadsTo_of_learn hlearn).trans (hrest.grows.2 learned ho.symm), ih ho⟩

theorem knows (h : Course rounds known history outcome) (hk : Knows batch past known) :
    ∀ before round after, history = before ++ round :: after →
      Knows batch (past ++ before) round.known := by
  induction h generalizing past with
  | unreadable | done | exhausted => simp
  | refused | rejected =>
    intro before round after hs
    obtain ⟨rfl, hr⟩ | ⟨before, rfl, hr⟩ := List.cons_eq_append_iff.mp hs
    · cases hr
      rwa [List.append_nil]
    · simp at hr
  | next _ _ hlearn _ ih =>
    intro before round after hs
    obtain ⟨rfl, hr⟩ | ⟨before, rfl, hr⟩ := List.cons_eq_append_iff.mp hs
    · cases hr
      rwa [List.append_nil]
    · rw [List.append_cons]
      exact ih (hk.learn hlearn) before round after hr

theorem knows_final (h : Course rounds known history (.ok learned))
    (hk : Knows batch past known) : Knows batch (past ++ history) learned := by
  generalize ho : Except.ok learned = outcome at h
  induction h generalizing past with
  | unreadable | exhausted | refused | rejected => cases ho
  | done =>
    cases ho
    rwa [List.append_nil]
  | next _ _ hlearn _ ih =>
    rw [List.append_cons]
    exact ih (hk.learn hlearn) ho

theorem last {before : List Round} {round : Round}
    (h : Course rounds known (before ++ [round]) outcome) :
    ∃ left, Course left round.known [round] outcome := by
  induction before generalizing rounds known with
  | nil =>
    have hknown : round.known = known := by cases h <;> rfl
    exact ⟨rounds, hknown ▸ h⟩
  | cons first before ih =>
    generalize hs : first :: before ++ [round] = history at h
    cases h with
    | unreadable | done | exhausted => cases hs
    | refused | rejected => simp at hs
    | next _ _ _ hrest =>
      cases hs
      exact ih hrest

/-- Only the last answer can be a failure, and then it is the failure of the whole. -/
theorem refused_last (h : Course rounds known history outcome) :
    ∀ round ∈ history, ∀ e, round.answer = .error e →
      history.getLast? = some round ∧ outcome = .error e := by
  induction h with
  | unreadable | done | exhausted => simp
  | refused =>
    refine List.forall_mem_singleton.mpr fun e he => ⟨rfl, ?_⟩
    exact congrArg _ (Except.error.inj he)
  | rejected =>
    refine List.forall_mem_singleton.mpr fun e he => ?_
    cases he
  | @next _ _ _ _ _ history _ _ _ _ _ ih =>
    refine List.forall_mem_cons.mpr ⟨fun e he => (by cases he), fun round hr e he => ?_⟩
    obtain ⟨hlast, ho⟩ := ih round hr e he
    refine ⟨?_, ho⟩
    rw [List.getLast?_cons, hlast]
    rfl

end Course
end

end Resolution
end TwinGraph
