import TwinGraph.Proofs.Model.Asking
import TwinGraph.Proofs.Model.Depth
import Mathlib.Data.List.Dedup

/-! Reading models comes to an end, whatever they refer to. A round that goes well makes at least
one id known that was not, and it is an id that the stored documents define. -/
namespace TwinGraph

open Outcome

variable {σ α : Type} {resolver : Resolver σ} {stored : List Json}

def Resolver.AnswersFrom (resolver : Resolver σ) (stored : List Json) : Prop :=
  ∀ ids s answer s', (resolver ids).run s = (.ok answer, s') → answer ⊆ stored

theorem Resolver.answersFrom_ofDocuments (stored : List Json) :
    (ofDocuments (σ := σ) stored).AnswersFrom stored := by
  intro ids s answer s' h document hdocument
  cases h
  exact (mem_select.mp hdocument).1

/-- Reading with as many rounds as it takes. All numbers of rounds above the limit come to the same
outcome after the same exchanges, at most one more than the limit, and no rounds are lacking. -/
structure EndsWithin (reading : (τ : Type) → Nat → Resolver τ → ExceptT ModelError (StateM τ) α)
    (resolver : Resolver σ) (limit : Nat) (s : σ) (exchanges : List Exchange)
    (outcome : Except ModelError α) (s' : σ) : Prop where
  few : exchanges.length ≤ limit + 1
  finished : ∀ ids, outcome = .error (.outOfRounds ids) →
    ∃ exchange ∈ exchanges, exchange.answer = .error (.outOfRounds ids)
  plain : ∀ rounds, limit < rounds → (reading σ rounds resolver).run s = (outcome, s')
  recorded : ∀ rounds record, limit < rounds →
    (reading _ rounds resolver.recorded).run (s, record) = (outcome, s', record ++ exchanges)

namespace EndsWithin

variable {reading : (τ : Type) → Nat → Resolver τ → ExceptT ModelError (StateM τ) α}
  {limit : Nat} {s s' : σ} {exchanges : List Exchange} {outcome : Except ModelError α}

theorem unasked (hrun : ∀ (τ : Type) rounds (resolver : Resolver τ) t,
      (reading τ rounds resolver).run t = (outcome, t))
    (hfinished : ∀ ids, outcome ≠ .error (.outOfRounds ids)) :
    EndsWithin reading resolver limit s [] outcome s where
  few := Nat.zero_le _
  finished ids h := absurd h (hfinished ids)
  plain rounds _ := hrun σ rounds resolver s
  recorded rounds record _ := by
    rw [List.append_nil]
    exact hrun _ rounds resolver.recorded (s, record)

theorem mono (h : EndsWithin reading resolver limit s exchanges outcome s') {limit' : Nat}
    (hle : limit ≤ limit') : EndsWithin reading resolver limit' s exchanges outcome s' where
  few := Nat.le_trans h.few (Nat.succ_le_succ hle)
  finished := h.finished
  plain rounds hrounds := h.plain rounds (Nat.lt_of_le_of_lt hle hrounds)
  recorded rounds record hrounds := h.recorded rounds record (Nat.lt_of_le_of_lt hle hrounds)

end EndsWithin

namespace Resolution

variable {known learned : Directory Json} {ids : List Text} {answer : List Json}

def unlearned (stored : List Json) (known : Directory Json) : List Text :=
  (definedIds stored).dedup.filter (!known.has ·)

theorem defined_of_learned (hsub : answer ⊆ stored) (hlearn : learn known ids answer = .ok learned)
    {id : Text} (hunknown : known.has id = false) (hlearned : learned.has id = true) :
    id ∈ definedIds stored := by
  obtain ⟨documents, hflat, henter, -⟩ := learn_eq_ok.mp hlearn
  obtain ⟨hvalid, -, -, hfind⟩ := foldlM_enterOne_eq_ok ((enterItems_eq_ok _).mp henter)
  obtain ⟨d, hd⟩ := Option.isSome_iff_exists.mp hlearned
  rcases (hfind id d).mp hd with hknown | ⟨hwritten, hid⟩
  · rw [Directory.has_eq_false.mp hunknown] at hknown
    cases hknown
  · have hanswer : d ∈ answer.flatMap written := by
      rw [← writtenAmong_flatten hflat]
      exact writtenAmong_mono (List.filter_subset_self _) hwritten
    obtain ⟨document, hdocument, hwritten'⟩ := List.mem_flatMap.mp hanswer
    apply List.mem_filterMap.mpr
    refine ⟨d, List.mem_flatMap.mpr ⟨document, hsub hdocument, hwritten'⟩, ?_⟩
    rw [Document.definedId?_eq_some, hvalid d hwritten, hid]

/-- A round that goes well leaves fewer ids to learn. -/
theorem unlearned_lt (hsub : answer ⊆ stored) (hmissing : missing known = .ok ids) (hne : ids ≠ [])
    (hlearn : learn known ids answer = .ok learned) :
    (unlearned stored learned).length < (unlearned stored known).length := by
  obtain ⟨id, hid⟩ := List.exists_mem_of_ne_nil ids hne
  have hleads := leadsTo_of_learn hlearn
  have hunknown : known.has id = false := (((asks_of_missing hmissing hne).mem_iff id).mp hid).1
  have hlearned : learned.has id = true := hleads.answered id hid
  have hdefined := defined_of_learned hsub hlearn hunknown hlearned
  apply length_filter_lt _ (List.mem_dedup.mpr hdefined)
  · rw [hunknown]
    rfl
  · rw [hlearned]
    rfl
  · intro i hi
    cases hknown : known.has i with
    | false => rfl
    | true =>
      obtain ⟨document, hdocument⟩ := Option.isSome_iff_exists.mp hknown
      have hkept : learned.has i = true :=
        Option.isSome_iff_exists.mpr ⟨document, hleads.kept i document hdocument⟩
      rw [hkept] at hi
      cases hi

abbrev fromKnown (known : Directory Json) (τ : Type) (rounds : Nat) (resolver : Resolver τ) :
    ExceptT ModelError (StateM τ) (Directory Json) :=
  complete resolver rounds known

section
variable {limit : Nat} {s s' : σ}

theorem ends_at_once {result : Except ModelError (List Json)} {e : ModelError}
    (hmissing : missing known = .ok ids) (hne : ids ≠ [])
    (hanswer : (resolver ids).run s = (result, s'))
    (hfails : (result >>= learn known ids) = .error e)
    (hfinished : ∀ missed, e = .outOfRounds missed → result = .error e) :
    EndsWithin (fromKnown known) resolver limit s [⟨ids, result⟩] (.error e) s' := by
  have hrun : ∀ (τ : Type) (resolver : Resolver τ) t t' rounds, limit < rounds →
      (resolver ids).run t = (result, t') →
        (complete resolver rounds known).run t = (.error e, t') := by
    intro τ resolver t t' rounds hrounds hanswer
    obtain ⟨rounds, rfl⟩ := Nat.exists_eq_add_one_of_ne_zero (Nat.ne_zero_of_lt hrounds)
    rw [run_complete_succ hmissing hne, hanswer]
    cases result with
    | error e' =>
      cases hfails
      rfl
    | ok answer =>
      have hlearn : learn known ids answer = .error e := hfails
      dsimp only
      rw [hlearn]
  constructor
  · exact Nat.succ_le_succ (Nat.zero_le _)
  · intro missed he
    rw [Except.error.injEq] at he
    subst he
    exact ⟨_, List.mem_singleton_self _, hfinished missed rfl⟩
  · intro rounds hrounds
    exact hrun _ _ _ _ rounds hrounds hanswer
  · intro rounds record hrounds
    apply hrun _ _ _ _ rounds hrounds
    rw [run_recorded, hanswer]

theorem ends_after {exchanges : List Exchange} {outcome : Except ModelError (Directory Json)}
    {s'' : σ} {less : Nat} (hmissing : missing known = .ok ids) (hne : ids ≠ [])
    (hanswer : (resolver ids).run s = (.ok answer, s'))
    (hlearn : learn known ids answer = .ok learned) (hless : less < limit)
    (h : EndsWithin (fromKnown learned) resolver less s' exchanges outcome s'') :
    EndsWithin (fromKnown known) resolver limit s (⟨ids, .ok answer⟩ :: exchanges) outcome s'' := by
  constructor
  · have hfew := h.few
    rw [List.length_cons]
    omega
  · intro missed he
    obtain ⟨exchange, hexchange, hanswer⟩ := h.finished missed he
    exact ⟨exchange, List.mem_cons_of_mem _ hexchange, hanswer⟩
  · intro rounds hrounds
    obtain ⟨rounds, rfl⟩ := Nat.exists_eq_add_one_of_ne_zero (Nat.ne_zero_of_lt hrounds)
    rw [fromKnown, run_complete_succ hmissing hne, hanswer]
    dsimp only
    rw [hlearn]
    exact h.plain rounds (by omega)
  · intro rounds record hrounds
    obtain ⟨rounds, rfl⟩ := Nat.exists_eq_add_one_of_ne_zero (Nat.ne_zero_of_lt hrounds)
    rw [fromKnown, run_complete_succ hmissing hne, run_recorded, hanswer]
    dsimp only
    rw [hlearn]
    have hrest := h.recorded rounds (record ++ [⟨ids, .ok answer⟩]) (by omega)
    rwa [List.append_assoc] at hrest

/-- The rounds end, as there is less to learn after each of them. -/
theorem complete_ends (hfrom : resolver.AnswersFrom stored) (known : Directory Json) (s : σ) :
    ∃ exchanges outcome s',
      EndsWithin (fromKnown known) resolver (unlearned stored known).length s exchanges outcome
        s' := by
  -- on what is left to learn, since the rounds themselves have no bound
  induction hn : (unlearned stored known).length using Nat.strongRecOn generalizing known s with
  | _ n ih =>
    cases hmissing : missing known with
    | error e =>
      refine ⟨[], .error e, s, .unasked (fun _ _ _ _ => run_complete_error hmissing) ?_⟩
      rintro ids ⟨⟩
      exact fails_missing known _ hmissing
    | ok ids =>
      by_cases hne : ids = []
      · subst hne
        refine ⟨[], .ok known, s, .unasked ?_ (by simp)⟩
        intro τ rounds resolver t
        exact complete_of_missing_nil resolver rounds t hmissing
      · rcases hanswer : (resolver ids).run s with ⟨e | answer, s'⟩
        · exact ⟨_, _, s', ends_at_once hmissing hne hanswer rfl fun _ _ => rfl⟩
        · cases hlearn : learn known ids answer with
          | error e =>
            refine ⟨_, _, s', ends_at_once hmissing hne hanswer hlearn ?_⟩
            rintro missed rfl
            rcases learn_eq_error hlearn with he | ⟨_, _, _, _, _, he⟩
            · exact he.elim
            · cases he
          | ok learned =>
            have hless := unlearned_lt (hfrom ids s answer s' hanswer) hmissing hne hlearn
            rw [hn] at hless
            obtain ⟨exchanges, outcome, s'', h⟩ := ih _ hless learned s' rfl
            exact ⟨_, outcome, s'', ends_after hmissing hne hanswer hlearn hless h⟩

end

abbrev ofBatch (batch : List Json) (τ : Type) (rounds : Nat) (resolver : Resolver τ) :
    ExceptT ModelError (StateM τ) (Directory Interface) :=
  readInterfaces rounds resolver batch

theorem readInterfaces_ends (hfrom : resolver.AnswersFrom stored) (batch : List Json) (s : σ) :
    ∃ exchanges outcome s', EndsWithin (ofBatch batch) resolver (definedIds stored).dedup.length s
      exchanges outcome s' := by
  rcases collect_begins batch with ⟨e, he, -, hrun⟩ | ⟨entered, -, hrun⟩
  · refine ⟨[], .error e, s, .unasked ?_ ?_⟩
    · intro τ rounds resolver t
      rw [ofBatch, run_readInterfaces, hrun]
      rfl
    · rintro ids ⟨⟩
      exact he
  · obtain ⟨exchanges, outcome, s', h⟩ := complete_ends hfrom entered s
    have hends := h.mono (List.length_filter_le _ _)
    refine ⟨exchanges, outcome >>= interfacesOf, s', hends.few, ?_, ?_, ?_⟩
    · intro ids hids
      rcases bind_eq_error.mp hids with hcollect | ⟨final, rfl, hbuild⟩
      · exact hends.finished ids hcollect
      · have hmissing := complete_missing (hends.plain _ (Nat.lt_succ_self _))
        exact (fails_interfacesOf hmissing _ hbuild).elim
    · intro rounds hrounds
      rw [ofBatch, run_readInterfaces, hrun, hends.plain rounds hrounds]
    · intro rounds record hrounds
      rw [ofBatch, run_readInterfaces, hrun, hends.recorded rounds record hrounds]

end Resolution

/-- Reading models ends. A resolver that answers from stored documents is asked at most once more
often than these define ids. No more interfaces are being built at once than there are, and one
that is met again. Schemas are read to the ninth level below the outermost one at most. -/
theorem reading_models_ends (hfrom : resolver.AnswersFrom stored) (batch : List Json) (s : σ) :
    (∃ exchanges outcome s', EndsWithin (Resolution.ofBatch batch) resolver
      (Resolution.definedIds stored).dedup.length s exchanges outcome s') ∧
    (∀ known declared, readDeclarations known = .ok declared →
      ∃ deepest, (Interface.buildAllNoting declared).run 0 =
        (Interface.buildAll declared, deepest) ∧ deepest ≤ known.entries.length + 1) ∧
    ∀ reusable schema, ∃ deepest, (Schema.readNoting reusable 0 schema).run 0 =
      (Schema.read reusable schema, deepest) ∧ deepest ≤ 9 := by
  refine ⟨Resolution.readInterfaces_ends hfrom batch s, ?_, ?_⟩
  · intro known declared hread
    rw [← readDeclarations_length hread]
    simpa using Interface.buildAllNoting_within declared 0
  · intro reusable schema
    exact Schema.readNoting_within reusable (Nat.zero_add (Schema.maxDepth + 1)) schema 0

def henModel : Json :=
  .object [("@id", .string "dtmi:example:Hen;1"), ("@type", .string "Interface"),
    ("extends", .string "dtmi:example:Egg;1")]

def eggModel : Json :=
  .object [("@id", .string "dtmi:example:Egg;1"), ("@type", .string "Interface"),
    ("extends", .string "dtmi:example:Hen;1")]

def chickModel : Json :=
  .object [("@id", .string "dtmi:example:Chick;1"), ("@type", .string "Interface"),
    ("extends", .string "dtmi:example:Hen;1")]

theorem hen_and_egg_end :
    (Resolver.ofDocuments (σ := Unit) [henModel, eggModel]).AnswersFrom [henModel, eggModel] ∧
    ∃ exchanges : List Exchange, exchanges.length ≤ 3 ∧ ∀ rounds, 2 < rounds →
      (readInterfaces rounds (Resolver.ofDocuments [henModel, eggModel]).recorded [chickModel]).run
        ((), []) = (.error (.extendsCycle "dtmi:example:Hen;1"), (), exchanges) := by
  have hfrom := Resolver.answersFrom_ofDocuments (σ := Unit) [henModel, eggModel]
  obtain ⟨⟨exchanges, outcome, s', h⟩, -⟩ := reading_models_ends hfrom [chickModel] ()
  have hlimit : (Resolution.definedIds [henModel, eggModel]).dedup.length = 2 := by decide
  rw [hlimit] at h
  have hcycle : ((readInterfaces 3 (Resolver.ofDocuments [henModel, eggModel]) [chickModel]).run
      ()).1 = .error (.extendsCycle "dtmi:example:Hen;1") := rfl
  have hplain := h.plain 3 (by decide)
  rw [Resolution.ofBatch] at hplain
  rw [hplain] at hcycle
  dsimp only at hcycle
  subst hcycle
  exact ⟨hfrom, exchanges, h.few, fun rounds hrounds => h.recorded rounds [] hrounds⟩

end TwinGraph
