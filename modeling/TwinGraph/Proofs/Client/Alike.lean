import TwinGraph.Proofs.Client.Calls
import TwinGraph.Proofs.Text.Pieces
import TwinGraph.Store.Script

/-! Calls that differ only in the texts and values supplied. What they send for one purpose has the
same tokens but for these. -/
namespace TwinGraph

open Outcome

def Document.count : List Json → Nat
  | [] => 0
  | .array items :: rest => items.length + count rest
  | _ :: rest => 1 + count rest

theorem Document.length_flatten {batch documents : List Json}
    (h : flatten batch = .ok documents) : documents.length = count batch := by
  induction batch generalizing documents with
  | nil =>
    cases h
    rfl
  | cons document batch ih =>
    cases document with
    | object fields =>
      obtain ⟨rest, hrest, h⟩ := bind_eq_ok.mp h
      rw [← pure_eq_ok.mp h, List.length_cons, ih hrest, count, Nat.add_comm]
      simp
    | array items =>
      rw [flatten] at h
      split at h
      · obtain ⟨rest, hrest, h⟩ := bind_eq_ok.mp h
        rw [← pure_eq_ok.mp h, List.length_append, ih hrest, count]
      · cases h
    | _ => cases h

theorem Pointer.length_segments {pointer : Text} {keys : List Text}
    (h : segments pointer = .ok keys) : keys.length = pointer.count '/' := by
  unfold segments at h
  split at h
  · next rest =>
    dsimp only at h
    split at h
    · cases h
    · cases h
      rw [List.length_map, Text.length_pieces, List.count_cons_self, List.count]
  · cases h

def PatchOperation.Alike (a b : PatchOperation) : Prop :=
  a.name = b.name ∧ a.path.count '/' = b.path.count '/'

namespace PatchClause

theorem shape_assign {keys keys' : List Text} (h : keys.length = keys'.length) (value value' : Json) :
    (assign keys value).shape = (assign keys' value').shape := by
  rw [shape, shape, List.map_const', List.map_const', h]

theorem shape_erase {keys keys' : List Text} (h : keys.length = keys'.length) :
    (erase keys).shape = (erase keys').shape := by
  rw [shape, shape, List.map_const', List.map_const', h]

theorem ofOperation?_eq_some {operation : PatchOperation} {clause : PatchClause}
    (h : ofOperation? operation = .ok (some clause)) :
    ∃ keys, Pointer.segments operation.path = .ok keys ∧
      ((operation.name = "add".toList ∨ operation.name = "replace".toList) ∧
          (∃ value, clause = assign keys value) ∨
        operation.name = "remove".toList ∧ clause = erase keys) := by
  unfold ofOperation? at h
  split at h
  · cases h
  · next keys hkeys =>
    refine ⟨keys, hkeys, ?_⟩
    split at h
    · cases h
    · split at h
      · cases h
        exact Or.inl ⟨Or.inl rfl, _, rfl⟩
      · cases h
        exact Or.inl ⟨Or.inr rfl, _, rfl⟩
      · cases h
        exact Or.inr ⟨rfl, rfl⟩
      · cases h

theorem shape_eq_of_alike {a b : PatchOperation} {clause clause' : PatchClause} (halike : a.Alike b)
    (ha : ofOperation? a = .ok (some clause)) (hb : ofOperation? b = .ok (some clause')) :
    clause.shape = clause'.shape := by
  obtain ⟨keys, hkeys, hclause⟩ := ofOperation?_eq_some ha
  obtain ⟨keys', hkeys', hclause'⟩ := ofOperation?_eq_some hb
  have hlength : keys.length = keys'.length := by
    rw [Pointer.length_segments hkeys, Pointer.length_segments hkeys', halike.2]
  have hadd : "add".toList ≠ "remove".toList := by decide
  have hreplace : "replace".toList ≠ "remove".toList := by decide
  rcases hclause with ⟨hname, value, rfl⟩ | ⟨hname, rfl⟩ <;>
    rcases hclause' with ⟨hname', value', rfl⟩ | ⟨hname', rfl⟩
  · exact shape_assign hlength value value'
  · rw [halike.1, hname'] at hname
    exact (hname.elim hadd.symm hreplace.symm).elim
  · rw [← halike.1, hname] at hname'
    exact (hname'.elim hadd.symm hreplace.symm).elim
  · exact shape_erase hlength

theorem ofPatch_eq_ok {patch : List PatchOperation} {clauses : List PatchClause}
    (h : ofPatch patch = .ok clauses) :
    List.Forall₂ (fun operation clause => ofOperation? operation = .ok (some clause))
      patch clauses := by
  obtain ⟨steps, hsteps, hsome⟩ := bind_eq_ok.mp h
  clear h
  dsimp only at hsome
  split at hsome
  · next hnone =>
    rw [pure_eq_ok] at hsome
    subst hsome
    rw [List.count_eq_zero] at hnone
    have hall := mapM_eq_ok.mp hsteps
    clear hsteps
    induction hall with
    | nil => exact List.Forall₂.nil
    | @cons operation step patch steps hstep _ ih =>
      rw [List.mem_cons, not_or] at hnone
      cases step with
      | none => exact absurd rfl hnone.1
      | some clause => exact List.Forall₂.cons hstep (ih hnone.2)
  · cases hsome

theorem shapes_eq_of_alike {patch patch' : List PatchOperation} {clauses clauses' : List PatchClause}
    (halike : List.Forall₂ PatchOperation.Alike patch patch') (h : ofPatch patch = .ok clauses)
    (h' : ofPatch patch' = .ok clauses') : clauses.map shape = clauses'.map shape := by
  have hclauses := ofPatch_eq_ok h
  have hclauses' := ofPatch_eq_ok h'
  clear h h'
  induction halike generalizing clauses clauses' with
  | nil =>
    cases hclauses
    cases hclauses'
    rfl
  | cons hab _ ih =>
    cases hclauses with
    | cons ha hrest =>
      cases hclauses' with
      | cons hb hrest' =>
        rw [List.map_cons, List.map_cons, shape_eq_of_alike hab ha hb, ih hrest hrest']

end PatchClause

/-- What a call sends a statement for: to look up a model, to look up so many of them, to link two
of them, or to do what the call is for. -/
inductive Role where
  | lookUp
  | lookUpAmong (count : Nat)
  | link
  | own
  deriving DecidableEq, Repr

def Statement.role : Statement → Role
  | model _ => .lookUp
  | modelsAmong ids => .lookUpAmong ids.length
  | linkModel _ _ => .link
  | _ => .own

def Request.statement? : Request → Option Statement
  | query _ statement | execute _ statement => some statement
  | sql _ => none

namespace Call

variable {σ σ' α α' : Type}

/-- The same operation on the same number of documents, operations and segments, for the same
name of a relationship. -/
inductive Alike : Call → Call → Prop where
  | getTwin {id id'} : Alike (.getTwin id) (.getTwin id')
  | putTwin {id id' document document' tag tag'} :
      Alike (.putTwin id document tag) (.putTwin id' document' tag')
  | patchTwin {id id' patch patch' tag tag'} (h : List.Forall₂ PatchOperation.Alike patch patch') :
      Alike (.patchTwin id patch tag) (.patchTwin id' patch' tag')
  | deleteTwin {id id'} : Alike (.deleteTwin id) (.deleteTwin id')
  | getRelationship {source source' id id'} :
      Alike (.getRelationship source id) (.getRelationship source' id')
  | listRelationships {source source' name name' cancelAfter cancelAfter'}
      (h : name.isSome = name'.isSome) :
      Alike (.listRelationships source name cancelAfter)
        (.listRelationships source' name' cancelAfter')
  | listIncoming {target target' cancelAfter cancelAfter'} :
      Alike (.listIncoming target cancelAfter) (.listIncoming target' cancelAfter')
  | putRelationship {source source' id id' document document' tag tag'}
      (h : document.field? Relationship.nameKey = document'.field? Relationship.nameKey) :
      Alike (.putRelationship source id document tag) (.putRelationship source' id' document' tag')
  | deleteRelationship {source source' id id' name} :
      Alike (.deleteRelationship source id name) (.deleteRelationship source' id' name)
  | getModel {id id'} : Alike (.getModel id) (.getModel id')
  | listModels {cancelAfter cancelAfter'} :
      Alike (.listModels cancelAfter) (.listModels cancelAfter')
  | createModels {batch batch'} (h : Document.count batch = Document.count batch') :
      Alike (.createModels batch) (.createModels batch')
  | deleteModel {id id'} : Alike (.deleteModel id) (.deleteModel id')

/-- The name under which a relationship is written is the one that its document gives. -/
theorem readName_of_check {source id target : Text} {relationship : Fields Json}
    {name : RelationshipName} (h : Relationship.check source id relationship = .ok (name, target)) :
    ∃ text, Fields.find? Relationship.nameKey relationship = some (.string text) ∧
      Relationship.readName text = .ok name := by
  obtain ⟨text, htext, h⟩ := bind_eq_ok.mp h
  obtain ⟨read, hread, h⟩ := bind_eq_ok.mp h
  obtain ⟨_, -, h⟩ := bind_eq_ok.mp h
  obtain ⟨_, -, h⟩ := bind_eq_ok.mp h
  obtain ⟨_, -, h⟩ := bind_eq_ok.mp h
  rw [pure_eq_ok, Prod.mk.injEq] at h
  obtain ⟨rfl, -⟩ := h
  refine ⟨text, ?_, hread⟩
  unfold Relationship.requiredText at htext
  split at htext
  · next hfind =>
    cases htext
    exact hfind
  · cases htext

theorem Composes.not_native {call : Call} {statement : Statement} (h : call.Composes statement) :
    statement.isNative = false := by
  cases h <;> rfl

/-- For one purpose alike calls compose statements of one form. -/
theorem shape_eq_of_alike {call call' : Call} {statement statement' : Statement}
    (halike : call.Alike call') (h : call.Composes statement) (h' : call'.Composes statement')
    (hrole : statement.role = statement'.role) : statement.shape = statement'.shape := by
  have hamong : ∀ {ids ids' : List Text},
      (Statement.modelsAmong ids).role = (Statement.modelsAmong ids').role →
      (Statement.modelsAmong ids).shape = (Statement.modelsAmong ids').shape := by
    intro ids ids' hlength
    rw [Statement.role, Statement.role, Role.lookUpAmong.injEq] at hlength
    rw [Statement.shape, Statement.shape, List.map_const', List.map_const', hlength]
  cases halike with
  | getTwin | deleteTwin | getRelationship | listIncoming | getModel | listModels | deleteModel =>
    cases h
    cases h'
    rfl
  | putTwin =>
    cases h with
    | lookUp => cases h' <;> first | rfl | cases hrole
    | putTwin => cases h' <;> first | rfl | cases hrole
    | resolve =>
      cases h' with
      | resolve => exact hamong hrole
      | _ => cases hrole
  | patchTwin hpatch =>
    cases h with
    | patchTwin made =>
      cases h' with
      | patchTwin made' =>
        rw [Client.patchClauses, mapError_eq_ok] at made made'
        rw [Statement.shape, Statement.shape, PatchClause.shapes_eq_of_alike hpatch made made']
  | @listRelationships _ _ name name' _ _ hname =>
    cases h
    cases h'
    cases name <;> cases name' <;> first | rfl | cases hname
  | putRelationship hname =>
    cases h with
    | putRelationship checked =>
      cases h' with
      | putRelationship checked' =>
        obtain ⟨text, hfind, hread⟩ := readName_of_check checked
        obtain ⟨text', hfind', hread'⟩ := readName_of_check checked'
        rw [Json.field?, Json.field?, hfind, hfind', Option.some.injEq, Json.string.injEq] at hname
        subst hname
        rw [hread, Except.ok.injEq] at hread'
        subst hread'
        rfl
  | deleteRelationship =>
    cases h with
    | deleteRelationship plain =>
      cases h' with
      | deleteRelationship plain' =>
        rw [plain, Except.ok.injEq] at plain'
        subst plain'
        rfl
  | createModels hcount =>
    cases h with
    | collect =>
      cases h' with
      | collect => exact hamong hrole
      | _ => cases hrole
    | createModels flat =>
      cases h' with
      | createModels flat' =>
        rw [Statement.shape, Statement.shape, List.map_const', List.map_const',
          Document.length_flatten flat, Document.length_flatten flat', hcount]
      | _ => cases hrole
    | link => cases h' <;> first | rfl | cases hrole

def statements (c : Client σ) (decoder : Decoder α) (call : Call) (state : σ) : List Statement :=
  (call.requests c decoder state).filterMap Request.statement?

theorem composes_of_mem {store : Store σ} {settings : Settings} {c : Client σ}
    (hc : Client.new store settings = .ok c) {decoder : Decoder α} {call : Call} {state : σ}
    {statement : Statement} (h : statement ∈ call.statements c decoder state) :
    call.Composes statement := by
  obtain ⟨request, hrequest, hstatement⟩ := List.mem_filterMap.mp h
  have hsends := (logs_perform c (Client.reader_of_new hc) decoder call).sent state
  obtain ⟨sent, rfl | rfl, hcomposes, -⟩ := hsends request hrequest <;>
  · cases hstatement
    exact hcomposes

/-- Two calls that are alike send statements of the same tokens, whatever the texts and values that
are supplied and whatever the stores answer. Only the contents of literals and the names of
properties differ, and they are exactly what was supplied. -/
theorem tokens_independent_of_supplied {store : Store σ} {store' : Store σ'}
    {settings settings' : Settings} {c : Client σ} {c' : Client σ'}
    (hc : Client.new store settings = .ok c) (hc' : Client.new store' settings' = .ok c')
    (decoder : Decoder α) (decoder' : Decoder α') {call call' : Call} (halike : call.Alike call')
    (state : σ) (state' : σ') :
    (∀ request ∈ call.requests c decoder state, ∃ statement,
      request = .query c.graphName statement ∨ request = .execute c.graphName statement) ∧
    ∀ statement ∈ call.statements c decoder state,
    ∀ statement' ∈ call'.statements c' decoder' state', statement.role = statement'.role →
      ∃ tokens tokens', Cypher.lex statement.text = some tokens ∧
        Cypher.lex statement'.text = some tokens' ∧
        tokens.map Cypher.Token.erased = tokens'.map Cypher.Token.erased ∧
        (call.Composes statement ∧
          tokens.filterMap Cypher.Token.content? = statement.contents) ∧
        call'.Composes statement' ∧
          tokens'.filterMap Cypher.Token.content? = statement'.contents := by
  constructor
  · intro request hrequest
    have hsends := (logs_perform c (Client.reader_of_new hc) decoder call).sent state
    obtain ⟨statement, hsent, -, -⟩ := hsends request hrequest
    exact ⟨statement, hsent⟩
  · intro statement hstatement statement' hstatement' hrole
    have hcomposes := composes_of_mem hc hstatement
    have hcomposes' := composes_of_mem hc' hstatement'
    have hshape := shape_eq_of_alike halike hcomposes hcomposes' hrole
    refine ⟨statement.tokens, statement'.tokens, statement.lex_text hcomposes.not_native,
      statement'.lex_text hcomposes'.not_native, ?_,
      ⟨hcomposes, statement.contents_tokens hcomposes.not_native⟩,
      hcomposes', statement'.contents_tokens hcomposes'.not_native⟩
    rw [statement.erased_tokens, statement'.erased_tokens, hshape]

def scripted : Client Script := ⟨Script.store, .default, Settings.default_valid, readInterfaces⟩

theorem hostile_patch_keeps_tokens :
    ∃ tokens tokens',
      Cypher.lex (Statement.patchTwin "room" [.assign ["name"] (.string "Hall")] "1").text =
        some tokens ∧
      Cypher.lex (Statement.patchTwin "'] DELETE t $$" [.assign ["a\x60 = 1"] (.string "\\' $$")]
        "'").text = some tokens' ∧
      tokens.map Cypher.Token.erased = tokens'.map Cypher.Token.erased := by
  have hc : Client.new Script.store .default = .ok scripted := dif_pos _
  have halike : Alike (.patchTwin "room" [.add "/name" (.string "Hall")] "1")
      (.patchTwin "'] DELETE t $$" [.add "/a\x60 = 1" (.string "\\' $$")] "'") :=
    .patchTwin (.cons ⟨rfl, by decide⟩ .nil)
  have h := (tokens_independent_of_supplied hc hc Decoder.json Decoder.json halike [] []).2
  obtain ⟨tokens, tokens', hlex, hlex', herased, -⟩ := h
    (.patchTwin "room" [.assign ["name"] (.string "Hall")] "1") (by decide +kernel)
    (.patchTwin "'] DELETE t $$" [.assign ["a\x60 = 1"] (.string "\\' $$")] "'")
    (by decide +kernel) rfl
  exact ⟨tokens, tokens', hlex, hlex', herased⟩

end Call
end TwinGraph
