import TwinGraph.Proofs.Client.Upserting

/-! The statements about stored models and the one that reads a twin, token by token. -/
namespace TwinGraph

namespace Cypher

def literalTokens (contents : List Text) : List Token :=
  (contents.map Token.literal).intersperse (.symbol ',')

def nodeTokens (var label : Text) : List Token :=
  [.symbol '(', .word var, .symbol ':', .word label, .symbol ')']

def fieldTokens (var key : Text) : List Token :=
  [.word var, .symbol '[', .literal key, .symbol ']']

def modelTokens (id : Text) : List Token :=
  Token.word "MATCH" :: nodeTokens "m" "Model" ++ Token.word "WHERE" :: fieldTokens "m" "@id" ++
    [Token.symbol '=', .literal id, .word "RETURN", .word "m"]

def modelsAmongTokens (ids : List Text) : List Token :=
  Token.word "MATCH" :: nodeTokens "m" "Model" ++ Token.word "WHERE" :: fieldTokens "m" "@id" ++
    [Token.word "IN", .symbol '['] ++ literalTokens ids ++
    [Token.symbol ']', .word "RETURN", .word "m"]

/-- The tokens of a lookup of models, with any text as id. -/
def ModelLookup (tokens : List Token) : Prop :=
  (∃ id, tokens = modelTokens id) ∨ ∃ ids, tokens = modelsAmongTokens ids

def createTokens (documents : List Text) : List Token :=
  [Token.word "UNWIND", .symbol '['] ++ literalTokens documents ++
    [Token.symbol ']', .word "AS", .word "model", .word "WITH", .word "model", .symbol ':',
      .symbol ':', .word "agtype", .word "AS", .word "model_agtype", .word "CREATE"] ++
    nodeTokens "m" "Model" ++
    [Token.word "SET", .word "m", .symbol '=', .word "model_agtype", .word "RETURN", .word "m"]

def linkTokens (id parent : Text) : List Token :=
  Token.word "MATCH" :: nodeTokens "m" "Model" ++ Token.symbol ',' :: nodeTokens "m2" "Model" ++
    Token.word "WHERE" :: fieldTokens "m" "@id" ++ [Token.symbol '=', .literal id, .word "AND"] ++
    fieldTokens "m2" "@id" ++ [Token.symbol '=', .literal parent, .word "CREATE", .symbol '(',
      .word "m", .symbol ')', .symbol '-', .symbol '[', .symbol ':', .word "_extends",
      .symbol ']', .symbol '-', .symbol '>', .symbol '(', .word "m2", .symbol ')']

def twinTokens (id : Text) : List Token :=
  Token.word "MATCH" :: nodeTokens "t" "Twin" ++ Token.word "WHERE" :: fieldTokens "t" "$dtId" ++
    [Token.symbol '=', .literal id, .word "RETURN", .word "t"]

theorem tokens_literals (contents : List Text) :
    (literals contents).flatMap Piece.tokens = literalTokens contents := by
  have hcomma : (Piece.fixed ", ").tokens = [.symbol ','] := by decide
  induction contents with
  | nil => rfl
  | cons content contents ih =>
    cases contents with
    | nil => rfl
    | cons next contents =>
      have hpieces : literals (content :: next :: contents) =
          .literal content :: .fixed ", " :: literals (next :: contents) := rfl
      rw [hpieces, List.flatMap_cons, List.flatMap_cons, hcomma, ih]
      rfl

end Cypher

namespace Statement

open Cypher

theorem lex_model (id : Text) : lex (model id).text = some (modelTokens id) := by
  have hopening : (lex "MATCH (m:Model) WHERE m['@id'] = ".toList).getD [] =
      [.word "MATCH", .symbol '(', .word "m", .symbol ':', .word "Model", .symbol ')',
        .word "WHERE", .word "m", .symbol '[', .literal "@id", .symbol ']', .symbol '='] := by
    decide
  have hreturn : (Piece.fixed " RETURN m").tokens = [.word "RETURN", .word "m"] := by decide
  simp only [lex_text _ (show (model id).isNative = false from rfl), tokens, opening, pieces,
    List.flatMap_cons, hopening, hreturn]
  rfl

theorem lex_twin (id : Text) : lex (twin id).text = some (twinTokens id) := by
  have hopening : (lex "MATCH (t:Twin) WHERE t['$dtId'] = ".toList).getD [] =
      [.word "MATCH", .symbol '(', .word "t", .symbol ':', .word "Twin", .symbol ')',
        .word "WHERE", .word "t", .symbol '[', .literal "$dtId", .symbol ']', .symbol '='] := by
    decide
  have hreturn : (Piece.fixed " RETURN t").tokens = [.word "RETURN", .word "t"] := by decide
  simp only [lex_text _ (show (twin id).isNative = false from rfl), tokens, opening, pieces,
    List.flatMap_cons, hopening, hreturn]
  rfl

theorem lex_modelsAmong (ids : List Text) :
    lex (modelsAmong ids).text = some (modelsAmongTokens ids) := by
  have hopening : (lex "MATCH (m:Model) WHERE m['@id'] IN [".toList).getD [] =
      [.word "MATCH", .symbol '(', .word "m", .symbol ':', .word "Model", .symbol ')',
        .word "WHERE", .word "m", .symbol '[', .literal "@id", .symbol ']', .word "IN",
        .symbol '['] := by decide
  have hreturn : (Piece.fixed "] RETURN m").tokens =
      [.symbol ']', .word "RETURN", .word "m"] := by decide
  simp only [lex_text _ (show (modelsAmong ids).isNative = false from rfl), tokens, opening, pieces,
    List.flatMap_append, List.flatMap_singleton, tokens_literals, hopening, hreturn]
  rw [← List.append_assoc]
  rfl

theorem lex_createModels (documents : List Json) :
    lex (createModels documents).text = some (createTokens (documents.map Json.render)) := by
  have hopening : (lex "UNWIND [".toList).getD [] = [.word "UNWIND", .symbol '['] := by decide
  have hcreate : (Piece.fixed
      "] AS model WITH model::agtype AS model_agtype CREATE (m:Model) SET m = model_agtype RETURN m"
      ).tokens = [.symbol ']', .word "AS", .word "model", .word "WITH", .word "model",
        .symbol ':', .symbol ':', .word "agtype", .word "AS", .word "model_agtype",
        .word "CREATE", .symbol '(', .word "m", .symbol ':', .word "Model", .symbol ')',
        .word "SET", .word "m", .symbol '=', .word "model_agtype", .word "RETURN",
        .word "m"] := by decide +kernel
  simp only [lex_text _ (show (createModels documents).isNative = false from rfl), tokens, opening,
    pieces, List.flatMap_append, List.flatMap_singleton, tokens_literals, hopening, hcreate]
  simp only [createTokens, List.append_assoc]
  rfl

theorem lex_linkModel (id parent : Text) :
    lex (linkModel id parent).text = some (linkTokens id parent) := by
  have hopening : (lex "MATCH (m:Model), (m2:Model) WHERE m['@id'] = ".toList).getD [] =
      [.word "MATCH", .symbol '(', .word "m", .symbol ':', .word "Model", .symbol ')',
        .symbol ',', .symbol '(', .word "m2", .symbol ':', .word "Model", .symbol ')',
        .word "WHERE", .word "m", .symbol '[', .literal "@id", .symbol ']', .symbol '='] := by
    decide
  have hand : (Piece.fixed " AND m2['@id'] = ").tokens =
      [.word "AND", .word "m2", .symbol '[', .literal "@id", .symbol ']', .symbol '='] := by
    decide
  have hcreate : (Piece.fixed " CREATE (m)-[:_extends]->(m2)").tokens =
      [.word "CREATE", .symbol '(', .word "m", .symbol ')', .symbol '-', .symbol '[', .symbol ':',
        .word "_extends", .symbol ']', .symbol '-', .symbol '>', .symbol '(', .word "m2",
        .symbol ')'] := by decide
  simp only [lex_text _ (show (linkModel id parent).isNative = false from rfl), tokens, opening,
    pieces, List.flatMap_cons, hopening, hand, hcreate]
  rfl

end Statement

def Request.ReadsModels (graph : Text) (request : Request) : Prop :=
  ∃ statement tokens, request = .query graph statement ∧
    Cypher.lex statement.text = some tokens ∧ Cypher.ModelLookup tokens

theorem Request.LooksUp.readsModels {graph : Text} {request : Request}
    (h : request.LooksUp graph) : request.ReadsModels graph := by
  rcases h with ⟨id, rfl⟩ | ⟨ids, rfl⟩
  · exact ⟨_, _, rfl, Statement.lex_model id, Or.inl ⟨id, rfl⟩⟩
  · exact ⟨_, _, rfl, Statement.lex_modelsAmong ids, Or.inr ⟨ids, rfl⟩⟩

end TwinGraph
