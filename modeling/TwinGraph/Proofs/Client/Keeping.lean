import TwinGraph.Proofs.Client.Trace
import TwinGraph.Proofs.Model.Resolving

/-! Stores that keep model documents. A lookup finds each kept document once, and so does the
client's resolver, however many lookups it makes of one request. -/
namespace TwinGraph

open Outcome

variable {σ α : Type}

def Row.document? (row : Row) : Option Json := row.vertexProperties?.map Json.object

/-- The answer is one vertex for each of the documents, in any order, and the state that it leaves
is as wanted. -/
def StoreAction.Shows (action : StoreAction σ Results) (documents : List Json) (holds : σ → Prop)
    (s : σ) : Prop :=
  ∃ (rows : List Row) (s' : σ), action.run s = (.ok (rows.map Except.ok), s') ∧ holds s' ∧
    (rows.map Row.document?).Perm (documents.map some)

/-- In such states the store answers lookups of models from the documents. Their ids are unique,
as the index of the graph makes them, and there are no more rounds to tell than documents. -/
structure Store.Keeps (store : Store σ) (graph : Text) (documents : List Json)
    (holds : σ → Prop) : Prop where
  objects : ∀ d ∈ documents, d.isObject = true
  unique : (documents.filterMap (Json.stringField? "@id")).Nodup
  lookUp : ∀ id s, holds s → StoreAction.Shows (store.query graph (Statement.model id).text)
    (Resolver.select documents [id]) holds s
  among : ∀ ids s, holds s → StoreAction.Shows (store.query graph (Statement.modelsAmong ids).text)
    (Resolver.select documents ids) holds s
  rounds : ∀ s, holds s → documents.length ≤ store.rounds s

theorem flatten_fillParts (size room : Nat) (as : List α) :
    (fillParts size room as).1 ++ (fillParts size room as).2.flatten = as := by
  induction as generalizing room with
  | nil => rfl
  | cons a as ih =>
    cases room with
    | zero =>
      rw [fillParts, List.nil_append, List.flatten_cons, List.cons_append, ih]
    | succ room => rw [fillParts, List.cons_append, ih]

theorem flatten_inParts (size : Nat) (as : List α) : (inParts size as).flatten = as := by
  have h := flatten_fillParts size 0 as
  have hnone : (fillParts size 0 as).1 = [] := by
    cases as <;> rfl
  rwa [hnone, List.nil_append] at h

theorem Results.rows_map_ok (rows : List Row) : Results.rows (rows.map Except.ok) = .ok rows := by
  refine mapM_eq_ok.mpr (List.forall₂_map_left_iff.mpr ?_)
  exact List.forall₂_same.mpr fun _ _ => rfl

theorem Results.vertexDocuments_map_ok (rows : List Row) :
    Results.vertexDocuments (rows.map Except.ok) = .ok (rows.filterMap Row.document?) :=
  bind_eq_ok.mpr ⟨rows, rows_map_ok rows, rfl⟩

theorem Client.run_ask {c : Client σ} {statement : Statement} {session : Session σ} {s' : σ}
    {results : Results}
    (h : (c.store.query c.graphName statement.text).run session.store = (.ok results, s')) :
    (c.ask statement).run session =
      (.ok results, ⟨s', session.sent ++ [.query c.graphName statement]⟩) := by
  show (((c.store.query c.graphName statement.text).run session.store).1,
    Session.mk ((c.store.query c.graphName statement.text).run session.store).2 _) = _
  rw [h]

theorem Client.run_queryFirst (c : Client σ) {statement : Statement}
    (hmark : Cypher.breaksOut statement.text = false) (session : Session σ) :
    (c.queryFirst statement).run session =
      (ClientError.ofStore (((c.ask statement).run session).1 >>= Results.first?),
        ((c.ask statement).run session).2) := by
  have hcheck : checkStatement statement = .ok () := checkStatement_eq_ok.mpr hmark
  unfold queryFirst query
  rw [run_bind, run_bind, run_lift, hcheck]
  dsimp only
  rw [run_adapt]
  cases ((c.ask statement).run session).1 with
  | ok results => rfl
  | error e => rfl

theorem Client.modelDocument_eq_ok {c : Client σ} {id : Text} {document : Json}
    {session session' : Session σ} :
    (c.modelDocument id).run session = (.ok document, session') ↔
      ∃ row, (c.queryFirst (.model id)).run session = (.ok (some row), session') ∧
        row.document? = some document := by
  constructor
  · intro h
    obtain ⟨found, session₁, hfound, h⟩ := run_bind_eq_ok.mp h
    split at h
    · next properties hproperties =>
      cases h
      obtain ⟨row, rfl, hrow⟩ := Option.bind_eq_some_iff.mp hproperties
      exact ⟨row, hfound, by rw [Row.document?, hrow]; rfl⟩
    · cases h
  · rintro ⟨row, hfound, hdocument⟩
    obtain ⟨properties, hproperties, rfl⟩ := Option.map_eq_some_iff.mp hdocument
    have hbind : (some row >>= Row.vertexProperties?) = some properties := hproperties
    refine run_bind_eq_ok.mpr ⟨some row, session', hfound, ?_⟩
    rw [hbind]
    rfl

theorem Client.run_readModels (c : Client σ) (hreader : c.reader = readInterfaces)
    (documents : List Json) (session : Session σ) :
    (c.readModels documents).run session =
      ((readInterfaces (c.store.rounds session.store) c.resolver documents).adapt .ofModelError).run
        session := by
  rw [← hreader]
  rfl

namespace Store.Keeps

variable {c : Client σ} {documents : List Json} {holds : σ → Prop}

theorem run_documentsAmong (h : c.store.Keeps c.graphName documents holds) (ids : List Text)
    {session : Session σ} (hs : holds session.store) :
    ∃ answer session', (c.documentsAmong ids).run session = (.ok answer, session') ∧
      holds session'.store ∧ answer.Perm (Resolver.select documents ids) := by
  obtain ⟨rows, s', hrun, hs', hperm⟩ := h.among ids session.store hs
  have hread := Results.vertexDocuments_map_ok rows
  refine ⟨rows.filterMap Row.document?,
    ⟨s', session.sent ++ [.query c.graphName (.modelsAmong ids)]⟩,
    run_bind_eq_ok.mpr ⟨_, _, Client.run_ask hrun, ?_⟩, hs', ?_⟩
  · rw [hread]
    rfl
  · have hall := hperm.filterMap id
    rw [List.filterMap_map, List.filterMap_map] at hall
    exact hall.trans (List.Perm.of_eq List.filterMap_some)

theorem run_parts (h : c.store.Keeps c.graphName documents holds) {parts : List (List Text)}
    (hnodup : parts.flatten.Nodup) {session : Session σ} (hs : holds session.store) :
    ∃ answers session', (parts.mapM c.documentsAmong).run session = (.ok answers, session') ∧
      holds session'.store ∧ answers.flatten.Nodup ∧ ∀ v, v ∈ answers.flatten ↔
        v ∈ documents ∧ ∃ id ∈ parts.flatten, v.stringField? "@id" = some id := by
  induction parts generalizing session with
  | nil => exact ⟨[], session, rfl, hs, List.nodup_nil, by simp⟩
  | cons part parts ih =>
    rw [List.flatten_cons, List.nodup_append] at hnodup
    obtain ⟨answer, session₁, hanswer, hs₁, hperm⟩ := h.run_documentsAmong part hs
    obtain ⟨answers, session', hanswers, hs', hdistinct, hmem⟩ := ih hnodup.2.1 hs₁
    have hfirst : ∀ v, v ∈ answer ↔
        v ∈ documents ∧ ∃ id ∈ part, v.stringField? "@id" = some id := fun v =>
      hperm.mem_iff.trans Resolver.mem_select
    refine ⟨answer :: answers, session', ?_, hs', ?_, fun v => ?_⟩
    · rw [List.mapM_cons]
      exact run_bind_eq_ok.mpr ⟨_, _, hanswer, run_bind_eq_ok.mpr ⟨_, _, hanswers, rfl⟩⟩
    · rw [List.flatten_cons, List.nodup_append]
      refine ⟨hperm.nodup_iff.mpr (Resolver.select_nodup h.unique part), hdistinct, ?_⟩
      -- a document has one id, and no id is asked for twice
      rintro v hv _ hv' rfl
      obtain ⟨-, id, hid, hfield⟩ := (hfirst v).mp hv
      obtain ⟨-, id', hid', hfield'⟩ := (hmem v).mp hv'
      rw [hfield, Option.some.injEq] at hfield'
      exact hnodup.2.2 id hid id' hid' hfield'
    · rw [List.flatten_cons, List.mem_append, hfirst, hmem, List.flatten_cons, ← and_or_left]
      simp only [List.mem_append, or_and_right, exists_or]

theorem tells (h : c.store.Keeps c.graphName documents holds) :
    c.resolver.Tells documents fun session => holds session.store where
  answers ids session hnodup hs := by
    rw [← flatten_inParts c.settings.batchSize ids] at hnodup ⊢
    obtain ⟨answers, session', hrun, hs', hdistinct, hmem⟩ := h.run_parts hnodup hs
    refine ⟨answers.flatten, session', ?_, hs', hdistinct, hmem⟩
    rw [flatten_inParts]
    exact run_bind_eq_ok.mpr ⟨answers, session', run_adapt_eq_ok.mpr hrun, rfl⟩

end Store.Keeps
end TwinGraph
