import TwinGraph.Client.Query
import TwinGraph.Proofs.Client.Operations
import TwinGraph.Proofs.Query.FirstWord

/-! Which text a query is sent to the store as. A twin query is sent as what it is translated to,
and a text goes out as it is only where there is nothing that it could be translated to. -/
namespace TwinGraph.Client

open Outcome

variable {σ α : Type} (c : Client σ)

def passed (text : Text) : List Text := if Cypher.breaksOut text then [] else [text]

theorem eq_of_mem_passed {s text : Text} (h : s ∈ passed text) : s = text := by
  unfold passed at h
  split at h
  · cases h
  · exact List.mem_singleton.mp h

theorem sent_native (text : Text) (session : Session σ) :
    ((c.query (.native text)).run session).2.sent = session.sent ++
      (passed text).map fun text => .query c.graphName (.native text) := by
  unfold query passed
  cases hmark : Cypher.breaksOut text with
  | true =>
    have hcheck : checkStatement (.native text) = .error (.badArgument .breaksOut) := if_pos hmark
    rw [hcheck, if_pos rfl, List.map_nil, List.append_nil]
    rfl
  | false =>
    have hcheck : checkStatement (.native text) = .ok () := checkStatement_eq_ok.mpr hmark
    rw [hcheck, if_neg Bool.false_ne_true]
    rfl

theorem sent_runQuery_ok {decoder : Decoder α} {query : Text} {cancelAfter : Option Nat}
    {statement : Statement} (h : queryStatement c.graphName query = .ok statement)
    (session : Session σ) :
    ((c.runQuery decoder query cancelAfter).run session).2.sent =
      ((c.query statement).run session).2.sent := by
  unfold runQuery
  rw [h]
  show (((c.query statement >>= _ : Action σ _)).run session).2.sent = _
  rw [run_bind]
  split
  · next results after hrun => rw [hrun]; rfl
  · next e after hrun => rw [hrun]

theorem sent_runQuery_error {decoder : Decoder α} {query : Text} {cancelAfter : Option Nat}
    {e : QueryError} (h : queryStatement c.graphName query = .error e) (session : Session σ) :
    ((c.runQuery decoder query cancelAfter).run session).2.sent = session.sent := by
  unfold runQuery
  rw [h]
  rfl

/-- A text that is not told for a twin query has no translation on any graph. A query is sent as
its translation where it has one, and as it is where it has none and is not told for a twin query;
either is held back if it would break out of the statement around it. -/
theorem query_sends_translation (query : Text) :
    (Query.isTwinQuery query = false →
      ∀ graph, Query.toCypher graph query = .error .missingSelect) ∧
    ∀ {σ α : Type} (c : Client σ) (decoder : Decoder α) (cancelAfter : Option Nat)
      (session : Session σ), ∃ texts : List Text,
        ((c.runQuery decoder query cancelAfter).run session).2.sent =
          session.sent ++ texts.map (fun text => .query c.graphName (.native text)) ∧
        (query ∈ texts → ∀ graph, Query.toCypher graph query = .error .missingSelect) ∧
        (∀ text, Query.toCypher c.graphName query = .ok text →
          text ≠ query ∧ texts = passed text) ∧
        (∀ e, Query.toCypher c.graphName query = .error e →
          texts = if Query.isTwinQuery query then [] else passed query) := by
  refine ⟨Query.toCypher_of_not_isTwinQuery, fun c decoder cancelAfter session => ?_⟩
  cases htwin : Query.isTwinQuery query with
  | false =>
    have hnone := Query.toCypher_of_not_isTwinQuery htwin
    have hstatement : queryStatement c.graphName query = .ok (.native query) :=
      if_neg (Bool.eq_false_iff.mp htwin)
    refine ⟨passed query, ?_, fun _ => hnone, fun text htext => ?_, fun _ _ => rfl⟩
    · rw [sent_runQuery_ok c hstatement, sent_native]
    · rw [hnone] at htext
      cases htext
  | true =>
    have hstatement : queryStatement c.graphName query =
        (Query.toCypher c.graphName query >>= fun text => pure (.native text)) :=
      if_pos htwin
    cases htext : Query.toCypher c.graphName query with
    | error e =>
      rw [htext] at hstatement
      refine ⟨[], ?_, fun h => absurd h List.not_mem_nil, fun text h => ?_, fun _ _ => rfl⟩
      · rw [sent_runQuery_error c hstatement, List.map_nil, List.append_nil]
      · cases h
    | ok text =>
      rw [htext] at hstatement
      -- A translation begins with another word, so it is never the query itself.
      have hother : text ≠ query := by
        rintro rfl
        have hfalse := Query.toCypher_not_isTwinQuery htext
        rw [htwin] at hfalse
        cases hfalse
      refine ⟨passed text, ?_, fun hmem => ?_, fun _ h => ?_, fun _ h => ?_⟩
      · rw [sent_runQuery_ok c hstatement, sent_native]
      · exact absurd (eq_of_mem_passed hmem).symm hother
      · cases h
        exact ⟨hother, rfl⟩
      · cases h

/-- Wide blanks in front do not hide a twin query, and what only begins like one has no translation
on any graph and is sent as it is. -/
theorem wide_blanks_are_translated :
    ((Call.scripted.runQuery Decoder.json "\u3000\u2003sElEcT\u00a0* FROM DIGITALTWINS" none).run
        ⟨[], []⟩).2.sent =
      [.query Call.scripted.graphName (.native "MATCH (T:Twin) RETURN *")] ∧
    ((Call.scripted.runQuery Decoder.json "SELECTED" none).run ⟨[], []⟩).2.sent =
      [.query Call.scripted.graphName (.native "SELECTED")] ∧
    ∀ graph, Query.toCypher graph "SELECTED" = .error .missingSelect := by
  obtain ⟨texts, hsent, -, htranslated, -⟩ :=
    (query_sends_translation "\u3000\u2003sElEcT\u00a0* FROM DIGITALTWINS").2 Call.scripted
      Decoder.json none ⟨[], []⟩
  have hnone := (query_sends_translation "SELECTED").1 (by decide)
  obtain ⟨others, hothers, -, -, huntranslated⟩ :=
    (query_sends_translation "SELECTED").2 Call.scripted Decoder.json none ⟨[], []⟩
  refine ⟨?_, ?_, hnone⟩
  · rw [hsent, (htranslated "MATCH (T:Twin) RETURN *" (by decide +kernel)).2]
    decide +kernel
  · rw [hothers, huntranslated _ (hnone _)]
    decide +kernel

end TwinGraph.Client
