import TwinGraph.Proofs.Model.Rounds

/-! What a resolver is asked while documents are read, whatever it answers. -/
namespace TwinGraph

open Outcome

variable {σ : Type}

namespace Resolution

section
variable {resolver : Resolver σ} {rounds : Nat} {known : Directory Json} {ids : List Text}
  {s s' : σ} {record : List Exchange}

theorem run_complete_error {e : ModelError} (h : missing known = .error e) :
    (complete resolver rounds known).run s = (.error e, s) := by
  cases rounds <;> simp only [complete, run_bind, run_lift, h]

theorem run_complete_exhausted (h : missing known = .ok ids) (hne : ids ≠ []) :
    (complete resolver 0 known).run s = (.error (.outOfRounds ids), s) := by
  simp only [complete, run_bind, run_lift, h]
  rw [if_neg fun he => hne (List.isEmpty_iff.mp he)]
  rfl

theorem run_complete_succ (h : missing known = .ok ids) (hne : ids ≠ []) :
    (complete resolver (rounds + 1) known).run s =
      match (resolver ids).run s with
      | (.error e, s') => (.error e, s')
      | (.ok answer, s') =>
        match learn known ids answer with
        | .error e => (.error e, s')
        | .ok learned => (complete resolver rounds learned).run s' := by
  rw [complete, run_bind, run_lift, h]
  dsimp only
  rw [if_neg fun he => hne (List.isEmpty_iff.mp he), run_bind]
  rcases (resolver ids).run s with ⟨_ | answer, s'⟩
  · rfl
  · simp only [run_bind, run_lift]
    cases learn known ids answer <;> rfl

theorem run_recorded (ids : List Text) :
    (resolver.recorded ids).run (s, record) =
      (((resolver ids).run s).1, ((resolver ids).run s).2,
        record ++ [⟨ids, ((resolver ids).run s).1⟩]) := rfl

theorem asks_or_ends (rounds : Nat) (known : Directory Json) :
    (∃ ids, missing known = .ok ids ∧ ids ≠ []) ∨
      ∃ outcome, Course rounds known [] outcome ∧ ∀ (τ : Type) (resolver : Resolver τ) (t : τ),
        (complete resolver rounds known).run t = (outcome, t) := by
  cases hm : missing known with
  | error e => exact Or.inr ⟨_, .unreadable hm, fun _ _ _ => run_complete_error hm⟩
  | ok ids =>
    by_cases hne : ids = []
    · subst hne
      exact Or.inr ⟨_, .done hm, fun _ _ _ => complete_of_missing_nil _ _ _ hm⟩
    · exact Or.inl ⟨ids, rfl, hne⟩

/-- Recording changes nothing, and what is recorded are the rounds of a course. -/
theorem complete_recorded (resolver : Resolver σ) (rounds : Nat) (known : Directory Json) (s : σ)
    (record : List Exchange) :
    ∃ history outcome s', Course rounds known history outcome ∧
      (complete resolver rounds known).run s = (outcome, s') ∧
      (complete resolver.recorded rounds known).run (s, record) =
        (outcome, s', record ++ history.map Round.toExchange) := by
  induction rounds generalizing known s record with
  | zero =>
    rcases asks_or_ends 0 known with ⟨ids, hm, hne⟩ | ⟨outcome, hcourse, hrun⟩
    · refine ⟨[], _, s, .exhausted hm hne, run_complete_exhausted hm hne, ?_⟩
      simpa using run_complete_exhausted hm hne
    · exact ⟨[], outcome, s, hcourse, hrun _ _ s, by simpa using hrun _ _ (s, record)⟩
  | succ rounds ih =>
    rcases asks_or_ends (rounds + 1) known with ⟨ids, hm, hne⟩ | ⟨outcome, hcourse, hrun⟩
    · rw [run_complete_succ hm hne, run_complete_succ hm hne, run_recorded]
      rcases (resolver ids).run s with ⟨e | answer, s'⟩
      · exact ⟨_, _, s', .refused hm hne, rfl, rfl⟩
      · dsimp only
        cases hl : learn known ids answer with
        | error e => exact ⟨_, _, s', .rejected hm hne hl, rfl, rfl⟩
        | ok learned =>
          obtain ⟨history, outcome, s'', hcourse, hrun, hrecorded⟩ :=
            ih learned s' (record ++ [⟨ids, .ok answer⟩])
          refine ⟨_, outcome, s'', .next hm hne hl hcourse, hrun, hrecorded.trans ?_⟩
          rw [List.append_assoc]
          rfl
    · exact ⟨[], outcome, s, hcourse, hrun _ _ s, by simpa using hrun _ _ (s, record)⟩

end

section
variable {batch : List Json} {history : List Round} {known : Directory Json} {rounds : Nat}
  {outcome : Except ModelError (Directory Json)}

theorem Knows.unique {known' : Directory Json} (h : Knows batch history known)
    (h' : Knows batch history known') : known = known' := by
  obtain ⟨tops, htops, hb⟩ := h
  obtain ⟨tops', htops', hb'⟩ := h'
  rw [htops] at htops'
  obtain rfl := Except.ok.inj htops'
  exact hb.unique hb'

theorem brought_of_unreadable {ids : List Text} {answer : List Json} {e : ModelError}
    (h : Document.flatten answer = .error e) : Round.brought ⟨⟨ids, .ok answer⟩, known⟩ = [] := by
  unfold Round.brought
  simp only [show (Except.ok answer >>= Document.flatten) = Document.flatten answer from rfl, h]

theorem Knows.of_nothing {round : Round} (h : Knows batch (history ++ [round]) known)
    (hround : round.brought = []) : Knows batch history known := by
  obtain ⟨tops, htops, hb⟩ := h
  rw [List.flatMap_append, List.flatMap_singleton, hround, List.append_nil] at hb
  exact ⟨tops, htops, hb⟩

theorem Knows.entered {past : List Round} {ids : List Text} {answer documents : List Json}
    {final : Directory Json} (hk : Knows batch past known)
    (hflat : Document.flatten answer = .ok documents)
    (hfinal : Knows batch (past ++ [⟨⟨ids, .ok answer⟩, known⟩]) final) :
    enterItems known (documents.filter (isNew known)) = .ok final := by
  obtain ⟨tops, htops, hb⟩ := hk
  obtain ⟨tops', htops', hb'⟩ := hfinal
  rw [htops] at htops'
  obtain rfl := Except.ok.inj htops'
  rw [List.flatMap_append, List.flatMap_singleton, brought_of_flatten hflat, ← List.append_assoc]
    at hb'
  obtain ⟨entered, henter⟩ := hb.enterItems_ok
    (fun d hd => hb'.valid d (by rw [writtenAmong_append]; exact List.mem_append_right _ hd))
    hb'.distinct
  obtain rfl := (hb.enterItems henter).unique hb'
  exact henter

theorem Asks.not_known {ids : List Text} (h : Asks known ids) :
    ¬ ∀ id ∈ ids, known.has id = true := by
  intro hknown
  obtain ⟨id, hid⟩ := List.exists_mem_of_ne_nil ids h.nonempty
  have hunknown := ((h.mem_iff id).mp hid).1
  rw [hknown id hid] at hunknown
  cases hunknown

namespace Course

theorem fails_at_once {undefined : List Text} :
    ¬ Course rounds known [] (.error (.unresolved undefined)) := by
  intro h
  cases h with
  | unreadable h => exact fails_missing known _ h

theorem unresolved {undefined : List Text}
    (h : Course rounds known history (.error (.unresolved undefined)))
    (hk : Knows batch [] known) :
    ∃ before round, history = before ++ [round] ∧
      (round.answer = .error (.unresolved undefined) ∨
        ∃ final, Knows batch history final ∧
          undefined = round.asked.filter (!final.has ·) ∧ undefined ≠ []) := by
  rcases List.eq_nil_or_concat history with rfl | ⟨before, round, rfl⟩
  · exact absurd h fails_at_once
  · rw [List.concat_eq_append] at h ⊢
    refine ⟨before, round, rfl, ?_⟩
    have hknows := h.knows hk before round [] rfl
    obtain ⟨left, hlast⟩ := h.last
    obtain ⟨⟨asked, answer⟩, found⟩ := round
    generalize ho : Except.error (ModelError.unresolved undefined) = outcome at hlast
    cases hlast with
    | refused => exact Or.inl (congrArg Except.error (Except.error.inj ho.symm))
    | rejected hm hne hl =>
      rcases learn_eq_error hl with he | ⟨documents, final, hflat, henter, hne, rfl⟩
      · cases ho
        exact he.elim
      · cases ho
        exact Or.inr ⟨final, hknows.enter hflat henter, rfl, hne⟩
    | next _ _ _ hrest =>
      subst ho
      exact absurd hrest fails_at_once

theorem undefined {before : List Round} {round : Round} {answer documents : List Json}
    {final : Directory Json} (h : Course rounds known (before ++ [round]) outcome)
    (hk : Knows batch [] known) (hanswer : round.answer = .ok answer)
    (hflat : Document.flatten answer = .ok documents)
    (hfinal : Knows batch (before ++ [round]) final)
    (hne : round.asked.filter (!final.has ·) ≠ []) :
    outcome = .error (.unresolved (round.asked.filter (!final.has ·))) := by
  have hknows := h.knows hk before round [] rfl
  obtain ⟨left, hlast⟩ := h.last
  obtain ⟨⟨asked, answer'⟩, found⟩ := round
  obtain rfl : answer' = .ok answer := hanswer
  have henter := hknows.entered hflat hfinal
  cases hlast with
  | rejected _ _ hl =>
    rw [learn_of_undefined hflat henter hne] at hl
    cases hl
    rfl
  | next _ _ hl _ =>
    rw [learn_of_undefined hflat henter hne] at hl
    cases hl

theorem ends {past : List Round} {final : Directory Json} {ids : List Text}
    (h : Course rounds known history outcome) (hk : Knows batch past known)
    (hfinal : Knows batch (past ++ history) final)
    (hasked : ∀ round ∈ history, ∀ id ∈ round.asked, final.has id = true)
    (hm : missing final = .ok ids) :
    outcome = if ids = [] then .ok final else .error (.outOfRounds ids) := by
  induction h generalizing past with
  | unreadable h =>
    rw [List.append_nil] at hfinal
    rw [hk.unique hfinal, hm] at h
    cases h
  | done h =>
    rw [List.append_nil] at hfinal
    obtain rfl := hk.unique hfinal
    rw [hm] at h
    cases h
    rfl
  | exhausted h hne =>
    rw [List.append_nil] at hfinal
    rw [hk.unique hfinal, hm] at h
    cases h
    rw [if_neg hne]
  | refused h hne =>
    obtain rfl := hk.unique (hfinal.of_nothing rfl)
    exact absurd (hasked _ (List.mem_singleton_self _)) (asks_of_missing h hne).not_known
  | @rejected _ _ _ answer _ h hne hlearn =>
    cases hflat : Document.flatten answer with
    | error e =>
      obtain rfl := hk.unique (hfinal.of_nothing (brought_of_unreadable hflat))
      exact absurd (hasked _ (List.mem_singleton_self _)) (asks_of_missing h hne).not_known
    | ok documents =>
      rw [learn_eq_ok.mpr ⟨documents, hflat, hk.entered hflat hfinal,
        hasked _ (List.mem_singleton_self _)⟩] at hlearn
      cases hlearn
  | next h hne hlearn _ ih =>
    rw [List.append_cons] at hfinal
    exact ih (hk.learn hlearn) hfinal fun round hr => hasked round (List.mem_cons_of_mem _ hr)

theorem exhausted_length {ids : List Text}
    (h : Course rounds known history (.error (.outOfRounds ids))) :
    history.length = rounds ∨ ∃ round ∈ history, round.answer = .error (.outOfRounds ids) := by
  generalize ho : Except.error (ModelError.outOfRounds ids) = outcome at h
  induction h with
  | unreadable h =>
    cases ho
    exact (fails_missing _ _ h).elim
  | done => cases ho
  | exhausted => exact Or.inl rfl
  | refused =>
    cases ho
    exact Or.inr ⟨_, List.mem_singleton_self _, rfl⟩
  | rejected _ _ hl =>
    rcases learn_eq_error hl with he | ⟨_, _, _, _, _, rfl⟩
    · cases ho
      exact he.elim
    · cases ho
  | next _ _ _ _ ih =>
    rcases ih ho with hlength | ⟨round, hr, he⟩
    · exact Or.inl (congrArg Nat.succ hlength)
    · exact Or.inr ⟨round, List.mem_cons_of_mem _ hr, he⟩

end Course

def interfacesOf (known : Directory Json) : Except ModelError (Directory Interface) :=
  readDeclarations known >>= Interface.buildAll

theorem fails_interfacesOf (hmissing : missing known = .ok []) :
    Fails ModelError.InContents (interfacesOf known) :=
  Fails.bind (fails_readDeclarations known) fun _ hread =>
    Interface.fails_buildAll (Interface.closed_of_missing hread hmissing)

theorem interfacesOf_has {interfaces : Directory Interface}
    (h : interfacesOf known = .ok interfaces) (id : Text) : interfaces.has id = known.has id := by
  obtain ⟨declared, hread, hbuild⟩ := bind_eq_ok.mp h
  rw [(Interface.buildAll_sound hbuild).2, readDeclarations_has hread]

/-- The laws that the requests and the outcome of reading a batch obey, whatever was answered. While
the answers are good, the requests go on until nothing is missing or no round is left. -/
structure Lawful (rounds : Nat) (batch : List Json) (history : List Round)
    (outcome : Except ModelError (Directory Interface)) : Prop where
  known : ∀ before round after, history = before ++ round :: after →
    Knows batch before round.known
  asks : ∀ round ∈ history, Asks round.known round.asked
  follows : history.Pairwise fun round later =>
    round.LeadsTo later.known ∧ round.asked.Disjoint later.asked
  refused : ∀ round ∈ history, ∀ e, round.answer = .error e →
    history.getLast? = some round ∧ outcome = .error e
  succeeds : ∀ interfaces, outcome = .ok interfaces → ∃ final, Knows batch history final ∧
    (∀ round ∈ history, round.LeadsTo final) ∧ interfacesOf final = .ok interfaces ∧
    ∀ id, interfaces.has id = final.has id
  unresolved : ∀ ids, outcome = .error (.unresolved ids) →
    ∃ before round, history = before ++ [round] ∧
      (round.answer = .error (.unresolved ids) ∨ ∃ final, Knows batch history final ∧
        ids = round.asked.filter (!final.has ·) ∧ ids ≠ [])
  undefined : ∀ before round answer documents final, history = before ++ [round] →
    round.answer = .ok answer → Document.flatten answer = .ok documents →
    Knows batch history final → round.asked.filter (!final.has ·) ≠ [] →
    outcome = .error (.unresolved (round.asked.filter (!final.has ·)))
  ends : ∀ final ids, Knows batch history final →
    (∀ round ∈ history, ∀ id ∈ round.asked, final.has id = true) → missing final = .ok ids →
    outcome = if ids = [] then interfacesOf final else .error (.outOfRounds ids)
  bounded : history.length ≤ rounds
  exhausted : ∀ ids, outcome = .error (.outOfRounds ids) → history.length = rounds ∨
    ∃ round ∈ history, round.answer = .error (.outOfRounds ids)

/-- A batch that cannot be entered is refused without a request. -/
theorem Lawful.unasked {e : ModelError} (he : e.InDocuments)
    (hnone : ∀ final, ¬ Knows batch [] final) : Lawful rounds batch [] (.error e) where
  known := by simp
  asks := by simp
  follows := List.Pairwise.nil
  refused := by simp
  succeeds := by simp
  unresolved := by
    rintro ids ⟨⟩
    exact he.elim
  undefined := by simp
  ends final _ hfinal := absurd hfinal (hnone final)
  bounded := Nat.zero_le _
  exhausted := by
    rintro ids ⟨⟩
    exact he.elim

theorem Course.lawful (h : Course rounds known history outcome) (hk : Knows batch [] known)
    (hfinal : ∀ final, outcome = .ok final → missing final = .ok []) :
    Lawful rounds batch history (outcome >>= interfacesOf) where
  known := h.knows hk
  asks := h.asks
  follows := h.pairwise
  refused round hr e he := by
    obtain ⟨hlast, rfl⟩ := h.refused_last round hr e he
    exact ⟨hlast, rfl⟩
  succeeds interfaces ho := by
    obtain ⟨final, rfl, hi⟩ := bind_eq_ok.mp ho
    exact ⟨final, h.knows_final hk, h.leadsTo, hi, interfacesOf_has hi⟩
  unresolved ids ho := by
    rcases bind_eq_error.mp ho with rfl | ⟨final, rfl, he⟩
    · exact h.unresolved hk
    · exact (fails_interfacesOf (hfinal final rfl) _ he).elim
  undefined before round answer documents final hh hanswer hflat hkf hne := by
    subst hh
    rw [h.undefined hk hanswer hflat hkf hne]
    rfl
  ends final ids hkf hasked hm := by
    rw [h.ends hk hkf hasked hm]
    split <;> rfl
  bounded := h.length_le
  exhausted ids ho := by
    rcases bind_eq_error.mp ho with rfl | ⟨final, rfl, he⟩
    · exact h.exhausted_length
    · exact (fails_interfacesOf (hfinal final rfl) _ he).elim

end

section
variable {resolver : Resolver σ} {rounds : Nat} {batch : List Json} {known : Directory Json} {s : σ}

theorem collect_begins (batch : List Json) :
    (∃ e : ModelError, e.InDocuments ∧ (∀ final, ¬ Knows batch [] final) ∧
        ∀ (τ : Type) (rounds : Nat) (resolver : Resolver τ) (t : τ),
          (collect rounds resolver batch).run t = (.error e, t)) ∨
      ∃ entered, Knows batch [] entered ∧
        ∀ (τ : Type) (rounds : Nat) (resolver : Resolver τ) (t : τ),
          (collect rounds resolver batch).run t = (complete resolver rounds entered).run t := by
  cases hflat : Document.flatten batch with
  | error e =>
    refine Or.inl ⟨e, (Document.fails_flatten batch).inDocuments e hflat, ?_, ?_⟩
    · rintro final ⟨documents, hdocuments, -⟩
      rw [hflat] at hdocuments
      cases hdocuments
    · intro τ rounds resolver t
      simp only [collect, run_bind, run_lift, hflat]
  | ok documents =>
    cases henter : enterItems Directory.empty documents with
    | error e =>
      refine Or.inl ⟨e, fails_enterItems _ documents e henter, ?_, ?_⟩
      · rintro final ⟨documents', hdocuments, hb⟩
        rw [hflat] at hdocuments
        obtain rfl := Except.ok.inj hdocuments
        rw [List.flatMap_nil, List.append_nil] at hb
        obtain ⟨entered, hentered⟩ := Brings.nothing.enterItems_ok hb.valid hb.distinct
        rw [henter] at hentered
        cases hentered
      · intro τ rounds resolver t
        simp only [collect, run_bind, run_lift, hflat, henter]
    | ok entered =>
      refine Or.inr ⟨entered, ⟨documents, hflat, ?_⟩, ?_⟩
      · rw [List.flatMap_nil, List.append_nil]
        exact Brings.nothing.enterItems henter
      · intro τ rounds resolver t
        simp only [collect, run_bind, run_lift, hflat, henter]

theorem knows_of_collect {s' : σ} (h : (collect rounds resolver batch).run s = (.ok known, s')) :
    ∃ history, Knows batch history known := by
  rcases collect_begins batch with ⟨e, -, -, hrun⟩ | ⟨entered, hknows, hrun⟩
  · rw [hrun] at h
    cases h
  · obtain ⟨history, outcome, s'', hcourse, hplain, -⟩ :=
      complete_recorded resolver rounds entered s []
    rw [hrun, hplain] at h
    cases h
    exact ⟨history, hcourse.knows_final hknows⟩

theorem run_readInterfaces :
    (readInterfaces rounds resolver batch).run s =
      (((collect rounds resolver batch).run s).1 >>= interfacesOf,
        ((collect rounds resolver batch).run s).2) := by
  rw [readInterfaces, run_bind]
  rcases (collect rounds resolver batch).run s with ⟨e | known, s'⟩
  · rfl
  · dsimp only
    rw [run_bind, run_lift, show (Except.ok known >>= interfacesOf) = interfacesOf known from rfl,
      interfacesOf]
    cases readDeclarations known <;> rfl

end
end Resolution

/-- Whatever a resolver answers, the requests that reading a batch makes of it, and the way the
reading ends, obey the laws. -/
theorem readInterfaces_asks_lawfully (rounds : Nat) (resolver : Resolver σ) (batch : List Json)
    (s : σ) :
    ∃ history outcome s', (readInterfaces rounds resolver batch).run s = (outcome, s') ∧
      (readInterfaces rounds resolver.recorded batch).run (s, []) =
        (outcome, s', history.map Round.toExchange) ∧
      Resolution.Lawful rounds batch history outcome := by
  rw [Resolution.run_readInterfaces, Resolution.run_readInterfaces]
  rcases Resolution.collect_begins batch with ⟨e, he, hnone, hrun⟩ | ⟨entered, hknows, hrun⟩
  · rw [hrun, hrun]
    exact ⟨[], .error e, s, rfl, rfl, .unasked he hnone⟩
  · obtain ⟨history, outcome, s', hcourse, hplain, hrecorded⟩ :=
      Resolution.complete_recorded resolver rounds entered s []
    rw [hrun, hrun, hplain, hrecorded]
    refine ⟨history, outcome >>= Resolution.interfacesOf, s', rfl, rfl, hcourse.lawful hknows ?_⟩
    rintro final rfl
    exact Resolution.complete_missing hplain

end TwinGraph
