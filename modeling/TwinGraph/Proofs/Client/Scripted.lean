import TwinGraph.Proofs.Client.Keeping
import TwinGraph.Store.Script

/-! Lookups of models in a scripted store. Every question takes one reply, so a parse that succeeds
at all succeeds within as many rounds as there are replies, and one. -/
namespace TwinGraph

open Outcome

variable {σ : Type}

theorem Resolution.complete_mono {resolver : Resolver σ} {rounds more : Nat} (hle : rounds ≤ more)
    {known known' : Directory Json} {s s' : σ}
    (h : (complete resolver rounds known).run s = (.ok known', s')) :
    (complete resolver more known).run s = (.ok known', s') := by
  induction rounds generalizing more known s with
  | zero =>
    obtain ⟨ids, hids, h⟩ := run_lift_bind_eq_ok.mp h
    split at h
    · next hnil =>
      rw [List.isEmpty_iff] at hnil
      subst hnil
      cases h
      exact complete_of_missing_nil resolver more _ hids
    · cases h
  | succ rounds ih =>
    obtain ⟨more, rfl⟩ : ∃ m, more = m + 1 := ⟨more - 1, by omega⟩
    obtain ⟨ids, hids, -⟩ := run_lift_bind_eq_ok.mp h
    by_cases hnil : ids = []
    · subst hnil
      rw [complete_of_missing_nil resolver _ s hids] at h ⊢
      exact h
    · obtain ⟨answer, s₁, learned, hanswer, hlearn, h⟩ := (complete_succ_eq_ok hids hnil).mp h
      exact (complete_succ_eq_ok hids hnil).mpr
        ⟨answer, s₁, learned, hanswer, hlearn, ih (by omega) h⟩

theorem Resolution.not_learn_nil {known known' : Directory Json} {ids : List Text}
    (hids : missing known = .ok ids) (hne : ids ≠ []) : learn known ids [] ≠ .ok known' := by
  intro h
  obtain ⟨documents, hflat, henter, hall⟩ := learn_eq_ok.mp h
  cases hflat
  cases henter
  obtain ⟨id, hid⟩ := List.exists_mem_of_ne_nil ids hne
  have hnew := (((missing_eq_ok hids).2 id).mp hid).1
  rw [hall id hid] at hnew
  cases hnew

theorem Results.first?_eq_some {results : Results} {row : Row} :
    results.first? = .ok (some row) ↔ ∃ more, results = .ok row :: more := by
  constructor
  · intro h
    match results with
    | .ok row :: more =>
      cases h
      exact ⟨more, rfl⟩
  · rintro ⟨more, rfl⟩
    rfl

theorem Row.document?_eq_some {row : Row} {document : Json} :
    row.document? = some document ↔
      ∃ vertex, row.first? = some (.vertex vertex) ∧ .object vertex.properties = document := by
  rw [document?, vertexProperties?, Option.map_map, Option.map_eq_some_iff]
  cases row.first? with
  | none => simp
  | some cell => cases cell <;> simp [Cell.vertex?]

namespace Client

variable {c : Client Script}

theorem run_ask_script (hstore : c.store = Script.store) (statement : Statement)
    (session : Session Script) :
    (c.ask statement).run session = (Script.results session.store.head?,
      ⟨session.store.tail, session.sent ++ [.query c.graphName statement]⟩) := by
  obtain ⟨script, sent⟩ := session
  show (((c.store.query c.graphName statement.text).run script).1,
    Session.mk ((c.store.query c.graphName statement.text).run script).2 _) = _
  rw [hstore]
  cases script <;> rfl

theorem documentsAmong_script (hstore : c.store = Script.store) {ids : List Text}
    {session session' : Session Script} {answer : List Json}
    (h : (c.documentsAmong ids).run session = (.ok answer, session')) :
    session'.store = session.store.tail ∧ (session.store = [] → answer = []) := by
  obtain ⟨results, session₁, hask, h⟩ := run_bind_eq_ok.mp h
  rw [run_ask_script hstore, Prod.mk.injEq] at hask
  obtain ⟨hresults, rfl⟩ := hask
  rw [run_lift, Prod.mk.injEq] at h
  obtain ⟨hanswer, rfl⟩ := h
  refine ⟨rfl, fun hempty => ?_⟩
  rw [hempty] at hresults
  cases hresults
  exact (Except.ok.inj hanswer).symm

theorem parts_script (hstore : c.store = Script.store) {parts : List (List Text)}
    {session session' : Session Script} {answers : List (List Json)}
    (h : (parts.mapM c.documentsAmong).run session = (.ok answers, session')) :
    session'.store = session.store.drop parts.length ∧
      (session.store = [] → answers.flatten = []) := by
  induction parts generalizing session answers with
  | nil =>
    cases h
    exact ⟨rfl, fun _ => rfl⟩
  | cons part parts ih =>
    rw [List.mapM_cons] at h
    obtain ⟨answer, session₁, hanswer, h⟩ := run_bind_eq_ok.mp h
    obtain ⟨more, session₂, hmore, h⟩ := run_bind_eq_ok.mp h
    cases h
    obtain ⟨htail, hnone⟩ := documentsAmong_script hstore hanswer
    obtain ⟨hdrop, hrest⟩ := ih hmore
    refine ⟨?_, fun hempty => ?_⟩
    · rw [hdrop, htail, ← List.drop_one, List.drop_drop, List.length_cons, Nat.add_comm]
    · rw [List.flatten_cons, hnone hempty, hrest (by rw [htail, hempty]; rfl)]
      rfl

theorem resolver_script (hstore : c.store = Script.store) {ids : List Text} (hne : ids ≠ [])
    {session session' : Session Script} {answer : List Json}
    (h : (c.resolver ids).run session = (.ok answer, session')) :
    session'.store.length < session.store.length ∨ answer = [] := by
  obtain ⟨answers, session₁, hanswers, h⟩ := run_bind_eq_ok.mp h
  cases h
  obtain ⟨hdrop, hnone⟩ := parts_script hstore (run_adapt_eq_ok.mp hanswers)
  cases hscript : session.store with
  | nil => exact Or.inr (hnone hscript)
  | cons reply script =>
    left
    have hparts : inParts c.settings.batchSize ids ≠ [] := fun hnil =>
      hne (by rw [← flatten_inParts c.settings.batchSize ids, hnil]; rfl)
    have hlength := List.length_pos_iff.mpr hparts
    rw [hdrop, hscript, List.length_drop, List.length_cons]
    omega

theorem complete_script (hstore : c.store = Script.store) {rounds : Nat}
    {known known' : Directory Json} {session session' : Session Script}
    (h : (Resolution.complete c.resolver rounds known).run session = (.ok known', session')) :
    (Resolution.complete c.resolver session.store.length known).run session =
      (.ok known', session') := by
  induction rounds generalizing known session with
  | zero => exact Resolution.complete_mono (Nat.zero_le _) h
  | succ rounds ih =>
    obtain ⟨ids, hids, -⟩ := run_lift_bind_eq_ok.mp h
    by_cases hnil : ids = []
    · subst hnil
      rw [Resolution.complete_of_missing_nil c.resolver _ session hids] at h ⊢
      exact h
    · obtain ⟨answer, session₁, learned, hanswer, hlearn, h⟩ :=
        (Resolution.complete_succ_eq_ok hids hnil).mp h
      have hless : session₁.store.length < session.store.length := by
        rcases resolver_script hstore hnil hanswer with hless | rfl
        · exact hless
        · exact absurd hlearn (Resolution.not_learn_nil hids hnil)
      have hstep : (Resolution.complete c.resolver (session₁.store.length + 1) known).run session =
          (.ok known', session') :=
        (Resolution.complete_succ_eq_ok hids hnil).mpr
          ⟨answer, session₁, learned, hanswer, hlearn, ih h⟩
      exact Resolution.complete_mono hless hstep

/-- The bound on the rounds that the script gives never decides. -/
theorem readInterfaces_script (hstore : c.store = Script.store) {rounds : Nat}
    {documents : List Json} {session session' : Session Script} {interfaces : Directory Interface}
    (h : (readInterfaces rounds c.resolver documents).run session = (.ok interfaces, session')) :
    (readInterfaces (c.store.rounds session.store) c.resolver documents).run session =
      (.ok interfaces, session') := by
  obtain ⟨known, session₁, hcollect, h⟩ := run_bind_eq_ok.mp h
  obtain ⟨flat, hflat, hcollect⟩ := run_lift_bind_eq_ok.mp hcollect
  obtain ⟨entered, hentered, hcomplete⟩ := run_lift_bind_eq_ok.mp hcollect
  have hrounds : session.store.length ≤ c.store.rounds session.store := by
    rw [hstore]
    exact Nat.le_succ _
  refine run_bind_eq_ok.mpr ⟨known, session₁, run_lift_bind_eq_ok.mpr ⟨flat, hflat,
    run_lift_bind_eq_ok.mpr ⟨entered, hentered, ?_⟩⟩, h⟩
  exact Resolution.complete_mono hrounds (complete_script hstore hcomplete)

theorem modelDocument_script (hstore : c.store = Script.store) {id : Text} {document : Json}
    {session session' : Session Script} :
    (c.modelDocument id).run session = (.ok document, session') ↔
      (∃ row more vertex, Script.results session.store.head? = .ok (.ok row :: more) ∧
        row.first? = some (.vertex vertex) ∧ .object vertex.properties = document) ∧
      ⟨session.store.tail, session.sent ++ [.query c.graphName (.model id)]⟩ = session' := by
  rw [modelDocument_eq_ok, run_queryFirst c (Statement.not_breaksOut _ rfl rfl),
    run_ask_script hstore]
  constructor
  · rintro ⟨row, hquery, hdocument⟩
    rw [Prod.mk.injEq, ClientError.ofStore, mapError_eq_ok, bind_eq_ok] at hquery
    obtain ⟨⟨results, hresults, hfirst⟩, hsession⟩ := hquery
    obtain ⟨more, rfl⟩ := Results.first?_eq_some.mp hfirst
    obtain ⟨vertex, hvertex, rfl⟩ := Row.document?_eq_some.mp hdocument
    exact ⟨⟨row, more, vertex, hresults, hvertex, rfl⟩, hsession⟩
  · rintro ⟨⟨row, more, vertex, hresults, hvertex, rfl⟩, rfl⟩
    refine ⟨row, ?_, Row.document?_eq_some.mpr ⟨vertex, hvertex, rfl⟩⟩
    rw [hresults]
    rfl

end Client
end TwinGraph
