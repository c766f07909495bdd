import TwinGraph.Proofs.Client.Registry
import TwinGraph.Proofs.Client.TwinKeeping

/-! A store that keeps twins beside models that are given. It goes by the tokens of the statements
that it is sent, and it prints the vertices that it answers with. -/
namespace TwinGraph.TwinRegistry

def depth : Nat := 16

def print (v : Vertex) : Text := (Json.object v.body).render ++ "::vertex".toList

def shown (v : Vertex) : Except StoreError Row := Row.ofTexts [("t", print v)]

/-- What is answered, and the twins that are kept after it. A twin is put with its document and then
its id; lookups name the key first and then the ids. -/
def answer (models : List Json) (statement : Text) (twins : Fields Vertex) :
    Results × Fields Vertex :=
  let tokens := (Cypher.lex statement).getD []
  match tokens.filterMap Cypher.Token.content? with
  | first :: contents =>
    if tokens.head? = some (.word "WITH") then
      match Json.read depth first, contents with
      | some (.object fields), [id] =>
        ([shown ⟨0, "Twin", fields⟩], Fields.put id ⟨0, "Twin", fields⟩ twins)
      | _, _ => ([], twins)
    else if first = Twin.idKey then
      ((contents.filterMap fun id => Fields.find? id twins).map shown, twins)
    else ((Resolver.select models contents).map fun d => .ok (Registry.vertexRow d), twins)
  | [] => ([], twins)

def store (models : List Json) : Store (Fields Vertex) where
  query _ statement := ExceptT.mk fun twins =>
    (.ok (answer models statement twins).1, (answer models statement twins).2)
  execute _ _ := pure 0
  executeSql _ := pure 0
  rounds _ := models.length

theorem answer_merge {models : List Json} {statement content id : Text} {fields : Fields Json}
    {twins : Fields Vertex} (hlex : Cypher.lex statement = some (Cypher.mergeTokens content id))
    (hread : Json.read depth content = some (.object fields)) :
    answer models statement twins =
      ([shown ⟨0, "Twin", fields⟩], Fields.put id ⟨0, "Twin", fields⟩ twins) := by
  have hcontents : (Cypher.mergeTokens content id).filterMap Cypher.Token.content? =
      [content, id] := rfl
  have hhead : (Cypher.mergeTokens content id).head? = some (.word "WITH".toList) := rfl
  unfold answer
  rw [hlex, Option.getD_some]
  simp only [hcontents, hread]
  rw [if_pos hhead]

theorem answer_twin {models : List Json} {statement id : Text} {twins : Fields Vertex}
    (hlex : Cypher.lex statement = some (Cypher.twinTokens id)) :
    answer models statement twins = ((Fields.find? id twins).toList.map shown, twins) := by
  have hcontents : (Cypher.twinTokens id).filterMap Cypher.Token.content? =
      [Twin.idKey, id] := rfl
  have hhead : (Cypher.twinTokens id).head? ≠ some (.word "WITH".toList) := by
    show some (Cypher.Token.word "MATCH".toList) ≠ _
    decide
  unfold answer
  rw [hlex, Option.getD_some]
  simp only [hcontents]
  rw [if_neg hhead, if_pos trivial]
  cases hfind : Fields.find? id twins <;> simp [hfind]

theorem answer_models {models : List Json} {statement : Text} {tokens : List Cypher.Token}
    {twins : Fields Vertex} (hlex : Cypher.lex statement = some tokens)
    (hlookup : Cypher.ModelLookup tokens) : (answer models statement twins).2 = twins := by
  have hhead : tokens.head? ≠ some (.word "WITH".toList) := by
    have hmatch : tokens.head? = some (.word "MATCH".toList) := by
      rcases hlookup with ⟨id, rfl⟩ | ⟨ids, rfl⟩ <;> rfl
    rw [hmatch]
    decide
  unfold answer
  rw [hlex, Option.getD_some]
  dsimp only
  split
  · rw [if_neg hhead]
    split <;> rfl
  · rfl

theorem keepsTwins (models : List Json) (graph : Text) :
    (store models).KeepsTwins graph depth print fun twins id => Fields.find? id twins where
  prints v := .vertex (Json.written_render (Or.inl rfl) _)
  merges statement content id fields twins hlex hread _ := by
    refine ⟨⟨0, "Twin", fields⟩, Fields.put id ⟨0, "Twin", fields⟩ twins, ?_, rfl, ?_, ?_⟩
    · show (Except.ok (answer models statement twins).1, (answer models statement twins).2) = _
      rw [answer_merge hlex hread]
      rfl
    · exact show Signed 0 by decide
    · funext other
      by_cases h : other = id
      · subst h
        rw [Fields.find?_put_self, Function.update_self]
      · rw [Fields.find?_put_of_ne h, Function.update_of_ne h]
  tells statement id twins hlex := by
    show Except.ok (answer models statement twins).1 = _
    rw [answer_twin hlex]
    rfl
  looksUp statement tokens twins hlex hlookup := by
    show (fun id => Fields.find? id (answer models statement twins).2) = _
    rw [answer_models hlex hlookup]

def client (models : List Json) : Client (Fields Vertex) :=
  ⟨store models, .default, Settings.default_valid, readInterfaces⟩

theorem client_new (models : List Json) :
    Client.new (store models) .default = .ok (client models) := dif_pos _

end TwinGraph.TwinRegistry
