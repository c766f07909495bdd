import TwinGraph.Client.Relationships
import TwinGraph.Proofs.Client.Trace
import Mathlib.Data.List.Forall2

/-! Everything that a caller can ask the client to do with texts and documents of its own, and the
statements that come of it. -/
namespace TwinGraph

open Outcome

inductive Call where
  | getTwin (id : Text)
  | putTwin (id : Text) (document : Json) (tag : Text)
  | patchTwin (id : Text) (patch : List PatchOperation) (tag : Text)
  | deleteTwin (id : Text)
  | getRelationship (source id : Text)
  | listRelationships (source : Text) (name : Option Text) (cancelAfter : Option Nat)
  | listIncoming (target : Text) (cancelAfter : Option Nat)
  | putRelationship (source id : Text) (document : Json) (tag : Text)
  | deleteRelationship (source id name : Text)
  | getModel (id : Text)
  | listModels (cancelAfter : Option Nat)
  | createModels (batch : List Json)
  | deleteModel (id : Text)

namespace Call

variable {σ α : Type}

def perform (c : Client σ) (decoder : Decoder α) : Call → Action σ Unit
  | getTwin id => discard (c.getTwin decoder id)
  | putTwin id document tag => discard (c.putTwin decoder id document tag)
  | patchTwin id patch tag => c.patchTwin id patch tag
  | deleteTwin id => c.deleteTwin id
  | getRelationship source id => discard (c.getRelationship decoder source id)
  | listRelationships source name cancelAfter =>
    discard (c.listRelationships decoder source name cancelAfter)
  | listIncoming target cancelAfter => discard (c.listIncoming target cancelAfter)
  | putRelationship source id document tag =>
    discard (c.putRelationship decoder source id document tag)
  | deleteRelationship source id name => c.deleteRelationship source id name
  | getModel id => discard (c.getModel decoder id)
  | listModels cancelAfter => discard (c.listModels decoder cancelAfter)
  | createModels batch => discard (c.createModels batch)
  | deleteModel id => c.deleteModel id

def requests (c : Client σ) (decoder : Decoder α) (call : Call) (state : σ) : List Request :=
  ((call.perform c decoder).run ⟨state, []⟩).2.sent

/-- The statements that a call is there to send, with what is supplied in them. -/
inductive Composes : Call → Statement → Prop where
  | getTwin {id} : Composes (.getTwin id) (.twin id)
  | lookUp {id twin tag model} (names : Twin.modelId twin = .ok model) :
      Composes (.putTwin id (.object twin) tag) (.model model)
  | resolve {id document tag ids} : Composes (.putTwin id document tag) (.modelsAmong ids)
  | putTwin {id twin tag} :
      Composes (.putTwin id (.object twin) tag) (.putTwin id (Twin.stamped id tag twin))
  | patchTwin {id patch tag clauses} (made : Client.patchClauses patch = .ok clauses) :
      Composes (.patchTwin id patch tag) (.patchTwin id clauses tag)
  | deleteTwin {id} : Composes (.deleteTwin id) (.deleteTwin id)
  | getRelationship {source id} : Composes (.getRelationship source id) (.relationship source id)
  | listRelationships {source name cancelAfter} :
      Composes (.listRelationships source name cancelAfter) (.relationships source name)
  | listIncoming {target cancelAfter} : Composes (.listIncoming target cancelAfter) (.incoming target)
  | putRelationship {source id relationship tag name target}
      (checked : Relationship.check source id relationship = .ok (name, target)) :
      Composes (.putRelationship source id (.object relationship) tag)
        (.putRelationship source target name id (Relationship.stamped source id tag relationship))
  | deleteRelationship {source id name label} (plain : Relationship.readName name = .ok label) :
      Composes (.deleteRelationship source id name) (.deleteRelationship source label id)
  | getModel {id} : Composes (.getModel id) (.model id)
  | listModels {cancelAfter} : Composes (.listModels cancelAfter) .models
  | collect {batch ids} : Composes (.createModels batch) (.modelsAmong ids)
  | createModels {batch documents} (flat : Document.flatten batch = .ok documents) :
      Composes (.createModels batch) (.createModels documents)
  | link {batch id parent} : Composes (.createModels batch) (.linkModel id parent)
  | deleteModel {id} : Composes (.deleteModel id) (.deleteModel id)

def Sends (graph : Text) (call : Call) (request : Request) : Prop :=
  ∃ statement, (request = .query graph statement ∨ request = .execute graph statement) ∧
    call.Composes statement ∧ Cypher.breaksOut statement.text = false

theorem Sends.query {graph : Text} {call : Call} {statement : Statement}
    (h : call.Composes statement) (hmark : Cypher.breaksOut statement.text = false) :
    Sends graph call (.query graph statement) :=
  ⟨statement, Or.inl rfl, h, hmark⟩

theorem Sends.execute {graph : Text} {call : Call} {statement : Statement}
    (h : call.Composes statement) (hmark : Cypher.breaksOut statement.text = false) :
    Sends graph call (.execute graph statement) :=
  ⟨statement, Or.inr rfl, h, hmark⟩

theorem logs_discard {P : Request → Prop} {x : Action σ α} (h : Logs P x) :
    Logs P (discard x : Action σ Unit) :=
  Logs.map _ h

theorem logs_create (c : Client σ) (hreader : c.AsksOnly) {batch documents : List Json}
    (hflat : Document.flatten batch = .ok documents) :
    Logs ((createModels batch).Sends c.graphName) (do
      let interfaces ← c.readModels documents
      let results ← c.query (.createModels documents)
      let created ← ClientError.ofStore results.vertexDocuments
      (Client.inheritanceLinks interfaces documents).forM fun (id, parent) =>
        discard (c.execute (.linkModel id parent))
      return created) := by
  refine Logs.bind (c.logs_readModels hreader (fun ids => .query .collect
    (Statement.not_breaksOut _ rfl rfl)) documents) fun interfaces _ _ _ => ?_
  refine Logs.bind (c.logs_query (.query (.createModels hflat))) fun results _ _ _ => ?_
  refine Logs.bind (Logs.lift _) fun created _ _ _ => ?_
  refine Logs.bind (Logs.forM fun link _ => ?_) fun _ _ _ _ => Logs.pure created
  exact logs_discard (c.logs_execute (.execute .link))

/-- Whatever the store answers, a call sends nothing but the statements that it composes. -/
theorem logs_composed (c : Client σ) (hreader : c.AsksOnly) (decoder : Decoder α)
    (call : Call) : Logs (call.Sends c.graphName) (call.perform c decoder) := by
  have hamong : ∀ ids, Cypher.breaksOut (Statement.modelsAmong ids).text = false := fun ids =>
    Statement.not_breaksOut _ rfl rfl
  have hmodel : ∀ id, Cypher.breaksOut (Statement.model id).text = false := fun id =>
    Statement.not_breaksOut _ rfl rfl
  cases call with
  | getTwin id =>
    refine logs_discard (Logs.bind (c.logs_queryFirst (.query .getTwin)) fun _ _ _ _ => ?_)
    split
    · exact Logs.lift _
    · exact Logs.throw _
  | putTwin id document tag =>
    refine logs_discard ?_
    unfold Client.putTwin
    split
    · next twin =>
      refine Logs.bind_lift fun _ _ => Logs.bind_lift fun model hname => ?_
      rw [mapError_eq_ok] at hname
      refine Logs.bind (c.logs_interface hreader (.query (.lookUp hname) (hmodel model))
        fun ids => .query .resolve (hamong ids)) fun interface _ _ _ => ?_
      dsimp only
      split
      · refine Logs.bind (c.logs_queryFirst (.query .putTwin)) fun _ _ _ _ => ?_
        split
        · exact Logs.lift _
        · exact Logs.throw _
      · exact Logs.bind (Logs.throw _) fun _ _ _ _ =>
          Logs.bind (c.logs_queryFirst (.query .putTwin)) fun _ _ _ _ => by
            split
            · exact Logs.lift _
            · exact Logs.throw _
    · exact Logs.throw _
  | patchTwin id patch tag =>
    refine Logs.bind_lift fun clauses hclauses => ?_
    refine Logs.bind (c.logs_queryFirst (.query (.patchTwin hclauses))) fun _ _ _ _ => ?_
    split
    · exact Logs.throw _
    · exact Logs.pure _
  | deleteTwin id =>
    refine Logs.bind (c.logs_execute (.execute .deleteTwin)) fun _ _ _ _ => ?_
    split
    · exact Logs.throw _
    · exact Logs.pure _
  | getRelationship source id =>
    refine logs_discard (Logs.bind (c.logs_queryFirst (.query .getRelationship))
      fun _ _ _ _ => ?_)
    split
    · exact Logs.lift _
    · exact Logs.throw _
  | listRelationships source name cancelAfter =>
    exact logs_discard (Logs.bind (c.logs_query (.query .listRelationships))
      fun _ _ _ _ => Logs.pure _)
  | listIncoming target cancelAfter =>
    exact logs_discard (Logs.bind (c.logs_query (.query .listIncoming))
      fun _ _ _ _ => Logs.pure _)
  | putRelationship source id document tag =>
    refine logs_discard ?_
    unfold Client.putRelationship
    split
    · next relationship =>
      refine Logs.bind_lift fun checked hcheck => ?_
      obtain ⟨name, target⟩ := checked
      rw [mapError_eq_ok] at hcheck
      refine Logs.bind (c.logs_queryFirst (.query (.putRelationship hcheck))) fun _ _ _ _ => ?_
      split
      · exact Logs.lift _
      · exact Logs.throw _
    · exact Logs.throw _
  | deleteRelationship source id name =>
    refine Logs.bind_lift fun label hlabel => ?_
    rw [mapError_eq_ok] at hlabel
    refine Logs.bind (c.logs_execute (.execute (.deleteRelationship hlabel))) fun _ _ _ _ => ?_
    split
    · exact Logs.throw _
    · exact Logs.pure _
  | getModel id =>
    exact logs_discard (Logs.bind (c.logs_modelDocument (.query .getModel (hmodel id)))
      fun _ _ _ _ => Logs.lift _)
  | listModels cancelAfter =>
    exact logs_discard (Logs.bind (c.logs_query (.query .listModels)) fun _ _ _ _ => Logs.pure _)
  | createModels batch =>
    refine logs_discard (Logs.bind_lift fun documents hflat => ?_)
    rw [mapError_eq_ok] at hflat
    have hcreate := logs_create c hreader hflat
    dsimp only
    split
    · exact Logs.bind (Logs.throw _) fun _ _ _ _ => hcreate
    · exact hcreate
  | deleteModel id =>
    refine Logs.bind (c.logs_execute (.execute .deleteModel)) fun _ _ _ _ => ?_
    split
    · exact Logs.throw _
    · exact Logs.pure _

theorem logs_perform (c : Client σ) (hreader : c.reader = readInterfaces) (decoder : Decoder α)
    (call : Call) : Logs (call.Sends c.graphName) (call.perform c decoder) :=
  logs_composed c (Client.asksOnly_of_eq hreader) decoder call

end Call
end TwinGraph
