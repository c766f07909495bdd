import TwinGraph.Client.Models
import TwinGraph.Proofs.Client.Tokens
import TwinGraph.Proofs.Model.Collecting

/-! What an action sends. Whatever the store answers, an action only adds to what was sent before,
and all that it adds is of some kind. -/
namespace TwinGraph

open Outcome

variable {ε ε' σ α β : Type} {P : Request → Prop}

/-- From every state the action adds requests of the kind only. -/
def Logs (P : Request → Prop) (action : ExceptT ε (StateM (Session σ)) α) : Prop :=
  ∀ session, ∃ new, (action.run session).2.sent = session.sent ++ new ∧ ∀ r ∈ new, P r

namespace Logs

theorem of_unchanged {action : ExceptT ε (StateM (Session σ)) α}
    (h : ∀ session, (action.run session).2 = session) : Logs P action :=
  fun session => ⟨[], by rw [h, List.append_nil], by simp⟩

theorem pure (a : α) : Logs P (Pure.pure a : ExceptT ε (StateM (Session σ)) α) :=
  of_unchanged fun _ => rfl

theorem throw (e : ε) : Logs P (MonadExcept.throw e : ExceptT ε (StateM (Session σ)) α) :=
  of_unchanged fun _ => rfl

theorem lift (x : Except ε α) : Logs P (liftM x : ExceptT ε (StateM (Session σ)) α) :=
  of_unchanged fun _ => rfl

theorem get : Logs P (MonadState.get : ExceptT ε (StateM (Session σ)) (Session σ)) :=
  of_unchanged fun _ => rfl

/-- What comes second is looked at for the results that the first step really gives. -/
theorem bind {x : ExceptT ε (StateM (Session σ)) α} {f : α → ExceptT ε (StateM (Session σ)) β}
    (hx : Logs P x) (hf : ∀ a s s', x.run s = (.ok a, s') → Logs P (f a)) : Logs P (x >>= f) := by
  intro session
  obtain ⟨new, hnew, hP⟩ := hx session
  rw [run_bind]
  split
  · next a s' hrun =>
    obtain ⟨more, hmore, hP'⟩ := hf a session s' hrun s'
    rw [hrun] at hnew
    refine ⟨new ++ more, ?_, List.forall_mem_append.mpr ⟨hP, hP'⟩⟩
    rw [hmore, ← List.append_assoc, ← hnew]
  · next e s' hrun =>
    rw [hrun] at hnew
    exact ⟨new, hnew, hP⟩

theorem bind_lift {x : Except ε α} {f : α → ExceptT ε (StateM (Session σ)) β}
    (hf : ∀ a, x = .ok a → Logs P (f a)) : Logs P (liftM x >>= f) :=
  bind (lift x) fun a s s' h => hf a (by rw [run_lift] at h; exact (Prod.mk.inj h).1)

theorem adapt {x : ExceptT ε (StateM (Session σ)) α} (f : ε → ε') (hx : Logs P x) :
    Logs P (x.adapt f) := by
  intro session
  exact hx session

theorem map {x : ExceptT ε (StateM (Session σ)) α} (f : α → β) (hx : Logs P x) :
    Logs P (f <$> x) := by
  rw [map_eq_pure_bind]
  exact bind hx fun a _ _ _ => pure (f a)

theorem mapM {f : α → ExceptT ε (StateM (Session σ)) β} {as : List α}
    (h : ∀ a ∈ as, Logs P (f a)) : Logs P (as.mapM f) := by
  induction as with
  | nil => exact pure []
  | cons a as ih =>
    rw [List.forall_mem_cons] at h
    rw [List.mapM_cons]
    exact bind h.1 fun b _ _ _ => bind (ih h.2) fun bs _ _ _ => pure (b :: bs)

theorem forM {f : α → ExceptT ε (StateM (Session σ)) PUnit} {as : List α}
    (h : ∀ a ∈ as, Logs P (f a)) : Logs P (as.forM f) := by
  induction as with
  | nil => exact pure PUnit.unit
  | cons a as ih =>
    rw [List.forall_mem_cons] at h
    exact bind h.1 fun _ _ _ _ => ih h.2

theorem sent {action : ExceptT ε (StateM (Session σ)) α} (h : Logs P action) (state : σ) :
    ∀ r ∈ (action.run ⟨state, []⟩).2.sent, P r := by
  obtain ⟨new, hnew, hP⟩ := h ⟨state, []⟩
  rw [hnew]
  exact hP

theorem send {request : Request} (h : P request) (action : StoreAction σ α) :
    Logs P (Session.send request action) :=
  fun _ => ⟨[request], rfl, by simpa using h⟩

end Logs

namespace Client

variable (c : Client σ)

theorem reader_of_new {store : Store σ} {settings : Settings} {c : Client σ}
    (h : Client.new store settings = .ok c) : c.reader = readInterfaces := by
  unfold Client.new at h
  split at h
  · cases h
    rfl
  · cases h

theorem store_of_new {store : Store σ} {settings : Settings} {c : Client σ}
    (h : Client.new store settings = .ok c) : store = c.store := by
  unfold Client.new at h
  split at h
  · cases h
    rfl
  · cases h

theorem logs_ask {statement : Statement} (h : P (.query c.graphName statement)) :
    Logs P (c.ask statement) :=
  Logs.send h _

theorem checkStatement_eq_ok {statement : Statement} {u : Unit} :
    checkStatement statement = .ok u ↔ Cypher.breaksOut statement.text = false := by
  unfold checkStatement
  cases Cypher.breaksOut statement.text <;> simp

theorem logs_query {statement : Statement}
    (h : Cypher.breaksOut statement.text = false → P (.query c.graphName statement)) :
    Logs P (c.query statement) :=
  Logs.bind_lift fun _ hcheck =>
    Logs.adapt _ (c.logs_ask (h (checkStatement_eq_ok.mp hcheck)))

theorem logs_queryFirst {statement : Statement}
    (h : Cypher.breaksOut statement.text = false → P (.query c.graphName statement)) :
    Logs P (c.queryFirst statement) :=
  Logs.bind (c.logs_query h) fun _ _ _ _ => Logs.lift _

theorem logs_execute {statement : Statement}
    (h : Cypher.breaksOut statement.text = false → P (.execute c.graphName statement)) :
    Logs P (c.execute statement) :=
  Logs.bind_lift fun _ hcheck =>
    Logs.adapt _ (Logs.send (h (checkStatement_eq_ok.mp hcheck)) _)

theorem logs_readInterfaces {resolver : Resolver (Session σ)} (h : ∀ ids, Logs P (resolver ids))
    (rounds : Nat) (documents : List Json) :
    Logs P (readInterfaces rounds resolver documents) :=
  readInterfaces_of_steps Logs.lift (fun hx hf => Logs.bind hx fun a _ _ _ => hf a) h rounds
    documents

theorem logs_resolver (h : ∀ ids, P (.query c.graphName (.modelsAmong ids))) (ids : List Text) :
    Logs P (c.resolver ids) := by
  refine Logs.bind (Logs.adapt _ (Logs.mapM fun part _ => ?_)) fun _ _ _ _ => Logs.pure _
  exact Logs.bind (c.logs_ask (h part)) fun _ _ _ _ => Logs.lift _

/-- Nothing is sent while models are read but what the resolver sends that the reader is given. -/
def AsksOnly : Prop :=
  ∀ {P : Request → Prop} {resolver : Resolver (Session σ)}, (∀ ids, Logs P (resolver ids)) →
    ∀ rounds documents, Logs P (c.reader rounds resolver documents)

variable {c} in
theorem asksOnly_of_eq (h : c.reader = readInterfaces) : c.AsksOnly := by
  intro P resolver hresolver rounds documents
  rw [h]
  exact logs_readInterfaces hresolver rounds documents

theorem logs_readModels (hreader : c.AsksOnly)
    (h : ∀ ids, P (.query c.graphName (.modelsAmong ids))) (documents : List Json) :
    Logs P (c.readModels documents) := by
  refine Logs.bind Logs.get fun session _ _ _ => Logs.adapt _ ?_
  exact hreader (c.logs_resolver h) _ documents

theorem logs_modelDocument {id : Text} (h : P (.query c.graphName (.model id))) :
    Logs P (c.modelDocument id) := by
  refine Logs.bind (c.logs_queryFirst fun _ => h) fun row _ _ _ => ?_
  split
  · exact Logs.pure _
  · exact Logs.throw _

theorem logs_interface (hreader : c.AsksOnly) {id : Text}
    (h : P (.query c.graphName (.model id)))
    (hamong : ∀ ids, P (.query c.graphName (.modelsAmong ids))) : Logs P (c.interface id) := by
  refine Logs.bind (c.logs_modelDocument h) fun document _ _ _ => ?_
  refine Logs.bind (c.logs_readModels hreader hamong [document]) fun interfaces _ _ _ => ?_
  split
  · exact Logs.pure _
  · exact Logs.throw _

end Client
end TwinGraph
