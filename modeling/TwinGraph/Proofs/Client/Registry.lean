import TwinGraph.Json.Reader
import TwinGraph.Proofs.Client.Keeping

/-! A store that keeps models. It goes by the tokens of the statements that it is sent, so it finds
and creates what they say and not what the client meant. -/
namespace TwinGraph.Registry

def vertexRow (document : Json) : Row :=
  [("m", .vertex ⟨0, "Model", (document.fields?).getD []⟩)]

/-- What a statement finds or creates, and the documents that are kept after it. Lookups name the
key first and then the ids. -/
def answer (statement : Text) (documents : List Json) : List Json × List Json :=
  let tokens := (Cypher.lex statement).getD []
  let contents := tokens.filterMap Cypher.Token.content?
  if tokens.head? = some (.word "UNWIND") then
    let created := contents.filterMap (Json.read 16)
    (created, documents ++ created)
  else (Resolver.select documents (contents.drop 1), documents)

def store : Store (List Json) where
  query _ statement := ExceptT.mk fun documents =>
    (.ok ((answer statement documents).1.map fun d => .ok (vertexRow d)),
      (answer statement documents).2)
  execute _ _ := pure 0
  executeSql _ := pure 0
  rounds := List.length

theorem document?_vertexRow {d : Json} (h : d.isObject = true) :
    (vertexRow d).document? = some d := by
  cases d with
  | object fields => rfl
  | _ => cases h

theorem answer_lookUp {statement : Statement} {ids : List Text} (documents : List Json)
    (hnative : statement.isNative = false)
    (hhead : statement.tokens.head? = some (.word "MATCH".toList))
    (hcontents : statement.contents = "@id".toList :: ids) :
    answer statement.text documents = (Resolver.select documents ids, documents) := by
  have hword : (some (Cypher.Token.word "MATCH".toList)) ≠ some (.word "UNWIND".toList) := by decide
  unfold answer
  rw [statement.lex_text hnative, Option.getD_some]
  dsimp only
  rw [hhead, if_neg hword, statement.contents_tokens hnative, hcontents]
  rfl

theorem head?_tokens {statement : Statement} {token : Cypher.Token}
    (h : ((Cypher.lex statement.opening.toList).getD []).head? = some token) :
    statement.tokens.head? = some token := by
  rw [Statement.tokens, List.head?_append, h]
  rfl

theorem keeps (graph : Text) {documents : List Json} (hobjects : ∀ d ∈ documents, d.isObject = true)
    (hunique : (documents.filterMap (Json.stringField? "@id")).Nodup) :
    store.Keeps graph documents (· = documents) := by
  have hshows : ∀ {statement : Statement} {ids : List Text}, statement.isNative = false →
      statement.tokens.head? = some (.word "MATCH".toList) →
      statement.contents = "@id".toList :: ids →
      StoreAction.Shows (store.query graph statement.text) (Resolver.select documents ids)
        (· = documents) documents := by
    intro statement ids hnative hhead hcontents
    have hanswer := answer_lookUp documents hnative hhead hcontents
    refine ⟨(Resolver.select documents ids).map vertexRow, documents, ?_, rfl, ?_⟩
    · show (Except.ok ((answer statement.text documents).1.map _),
        (answer statement.text documents).2) = _
      rw [hanswer, List.map_map]
      rfl
    · rw [List.map_map]
      refine List.Perm.of_eq (List.map_congr_left fun d hd => ?_)
      exact document?_vertexRow (hobjects d (Resolver.mem_select.mp hd).1)
  refine ⟨hobjects, hunique, ?_, ?_, fun s hs => hs ▸ Nat.le_refl _⟩
  · rintro id _ rfl
    refine hshows rfl (head?_tokens ?_) rfl
    simp only [Statement.opening]
    rw [String.toList_ofList]
    decide +kernel
  · rintro ids _ rfl
    refine hshows rfl (head?_tokens ?_) rfl
    simp only [Statement.opening]
    rw [String.toList_ofList]
    decide +kernel

def client : Client (List Json) := ⟨store, .default, Settings.default_valid, readInterfaces⟩

theorem client_new : Client.new store .default = .ok client := dif_pos _

/-- The batch is accepted by an empty registry, which keeps its documents then, and yet the model
of the id cannot be read afterwards. -/
def Loses (batch : List Json) (id : Text) : Prop :=
  store.Keeps Settings.default.graphName [] (· = []) ∧
    store.Keeps Settings.default.graphName batch (· = batch) ∧
    ∃ created session, (client.createModels batch).run ⟨[], []⟩ = (.ok created, session) ∧
      session.store = batch ∧ ∃ error, ((client.interface id).run session).1 = .error error

def trial (batch : List Json) (id : Text) : Bool :=
  match (client.createModels batch).run ⟨[], []⟩ with
  | (.ok _, session) =>
    decide (session.store = batch) && ((client.interface id).run session).1.toOption.isNone
  | (.error _, _) => false

theorem loses_of_trial {batch : List Json} {id : Text} (hobjects : ∀ d ∈ batch, d.isObject = true)
    (hunique : (batch.filterMap (Json.stringField? "@id")).Nodup) (h : trial batch id = true) :
    Loses batch id := by
  refine ⟨keeps _ (by simp) (by simp), keeps _ hobjects hunique, ?_⟩
  unfold trial at h
  split at h
  · next created session hcreated =>
    rw [Bool.and_eq_true, decide_eq_true_iff] at h
    refine ⟨created, session, hcreated, h.1, ?_⟩
    cases hinterface : ((client.interface id).run session).1 with
    | ok interface =>
      rw [hinterface] at h
      cases h.2
    | error e => exact ⟨e, rfl⟩
  · cases h

end TwinGraph.Registry
