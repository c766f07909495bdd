import TwinGraph.Proofs.Client.Scripted
import TwinGraph.Proofs.Model.Asking

/-! Requests and their replies. Every request takes the next reply of the script, and the first
reply that is a failure, or that has one behind some rows, is the end of the run and its result. -/
namespace TwinGraph

open Outcome

variable {ε ε' α β : Type}

/-- The reply has the error for whoever reads the whole of it. -/
def Request.FailsOn (reply : Option Reply) (e : StoreError) : Request → Prop
  | .query _ _ => (Script.results reply >>= Results.rows) = .error e
  | .execute _ _ | .sql _ => Script.count reply = .error e

/-- The replies of the script to the requests, one for each. Only the last can be a failure. -/
inductive Answered : Script → List Request → Option StoreError → Prop where
  | nil (script : Script) : Answered script [] none
  | failed {script : Script} {request : Request} {e : StoreError}
      (h : request.FailsOn script.head? e) : Answered script [request] (some e)
  | cons {script : Script} {request : Request} {requests : List Request}
      {failure : Option StoreError} (h : ∀ e, ¬ request.FailsOn script.head? e)
      (hrest : Answered script.tail requests failure) :
      Answered script (request :: requests) failure

theorem Answered.append {script : Script} {requests more : List Request}
    {failure : Option StoreError} (h : Answered script requests none)
    (hmore : Answered (script.drop requests.length) more failure) :
    Answered script (requests ++ more) failure := by
  generalize hnone : (none : Option StoreError) = ended at h
  induction h with
  | nil => exact hmore
  | failed => cases hnone
  | @cons script _ requests _ hrequest _ ih =>
    refine .cons hrequest (ih ?_ hnone)
    rwa [← List.drop_one, List.drop_drop, Nat.add_comm]

/-- The action takes a reply for each request that it sends, and it ends with an error of the store
exactly if the last reply has it. -/
def Heeds (wrap : StoreError → ε) (action : ExceptT ε (StateM (Session Script)) α) : Prop :=
  ∀ session, ∃ new failure, Answered session.store new failure ∧
    (action.run session).2 = ⟨session.store.drop new.length, session.sent ++ new⟩ ∧
    ∀ e, failure = some e ↔ (action.run session).1 = .error (wrap e)

namespace Heeds

variable {wrap : StoreError → ε}

theorem lift {x : Except ε α} (h : Fails (fun e => ∀ s, e ≠ wrap s) x) :
    Heeds wrap (liftM x : ExceptT ε (StateM (Session Script)) α) := by
  intro session
  refine ⟨[], none, .nil _, ?_, fun e => ⟨nofun, fun he => ?_⟩⟩
  · rw [run_lift, List.append_nil]
    rfl
  · exact absurd rfl (h _ he e)

theorem pure (a : α) : Heeds wrap (Pure.pure a : ExceptT ε (StateM (Session Script)) α) :=
  lift (x := .ok a) (Fails.ok a)

theorem throw {e : ε} (h : ∀ s, e ≠ wrap s) :
    Heeds wrap (MonadExcept.throw e : ExceptT ε (StateM (Session Script)) α) :=
  lift (x := .error e) (Fails.error h)

theorem bind {x : ExceptT ε (StateM (Session Script)) α}
    {f : α → ExceptT ε (StateM (Session Script)) β} (hx : Heeds wrap x)
    (hf : ∀ a s s', x.run s = (.ok a, s') → Heeds wrap (f a)) : Heeds wrap (x >>= f) := by
  intro session
  obtain ⟨new, failure, hnew, hrun, hfailure⟩ := hx session
  rw [run_bind]
  split
  · next a s' ha =>
    rw [ha] at hrun hfailure
    cases hrun
    obtain rfl : failure = none := Option.eq_none_iff_forall_ne_some.mpr fun e he => by
      cases (hfailure e).mp he
    obtain ⟨more, failure, hmore, hrun', hfailure'⟩ := hf a session _ ha
      ⟨session.store.drop new.length, session.sent ++ new⟩
    refine ⟨new ++ more, failure, hnew.append hmore, ?_, hfailure'⟩
    rw [hrun', List.drop_drop, List.length_append, List.append_assoc]
  · next e' s' ha =>
    rw [ha] at hrun hfailure
    refine ⟨new, failure, hnew, hrun, fun e => (hfailure e).trans ?_⟩
    simp only [Except.error.injEq]

theorem bind_lift {x : Except ε α} {f : α → ExceptT ε (StateM (Session Script)) β}
    (h : Fails (fun e => ∀ s, e ≠ wrap s) x) (hf : ∀ a, x = .ok a → Heeds wrap (f a)) :
    Heeds wrap (liftM x >>= f) :=
  bind (lift h) fun a s s' hrun => hf a (by rw [run_lift] at hrun; exact (Prod.mk.inj hrun).1)

theorem adapt {wrap' : StoreError → ε'} {f : ε → ε'} (h : ∀ e s, f e = wrap' s ↔ e = wrap s)
    {x : ExceptT ε (StateM (Session Script)) α} (hx : Heeds wrap x) : Heeds wrap' (x.adapt f) := by
  intro session
  obtain ⟨new, failure, hnew, hrun, hfailure⟩ := hx session
  refine ⟨new, failure, hnew, hrun, fun e => (hfailure e).trans ?_⟩
  rw [run_adapt]
  cases (x.run session).1 with
  | error e' => simpa [Except.mapError] using (h e' e).symm
  | ok a => simp [Except.mapError]

theorem mapM {f : α → ExceptT ε (StateM (Session Script)) β} {as : List α}
    (h : ∀ a ∈ as, Heeds wrap (f a)) : Heeds wrap (as.mapM f) := by
  induction as with
  | nil => exact pure []
  | cons a as ih =>
    rw [List.forall_mem_cons] at h
    rw [List.mapM_cons]
    exact bind h.1 fun b _ _ _ => bind (ih h.2) fun bs _ _ _ => pure (b :: bs)

theorem single (outcome : Option Reply → Except StoreError α)
    {action : StoreAction (Session Script) α} {request : Request}
    (hrun : ∀ session, action.run session =
      (outcome session.store.head?, ⟨session.store.tail, session.sent ++ [request]⟩))
    (houtcome : ∀ reply e, request.FailsOn reply e ↔ outcome reply = .error e) :
    Heeds id action := by
  intro session
  rw [hrun, ← List.drop_one]
  cases hreply : outcome session.store.head? with
  | ok a =>
    refine ⟨[request], none, .cons (fun e he => ?_) (.nil _), rfl, by simp⟩
    rw [houtcome, hreply] at he
    cases he
  | error e =>
    exact ⟨[request], some e, .failed ((houtcome _ e).mpr hreply), rfl, by simp⟩

end Heeds

theorem Results.vertexDocuments_eq_error {results : Results} {e : StoreError} :
    results.vertexDocuments = .error e ↔ results.rows = .error e := by
  rw [vertexDocuments, bind_eq_error]
  simp [Pure.pure, Except.pure]

theorem Request.failsOn_query {graph : Text} {statement : Statement} {reply : Option Reply}
    {e : StoreError} : (query graph statement).FailsOn reply e ↔
      (Script.results reply >>= Results.vertexDocuments) = .error e := by
  rw [FailsOn, bind_eq_error, bind_eq_error]
  simp only [Results.vertexDocuments_eq_error]

theorem ClientError.ofModelError_eq_store {e : ModelError} {s : StoreError} :
    ofModelError e = .store s ↔ e = .store s := by
  cases e <;> simp [ofModelError]

theorem Fails.not_store {x : Except ModelError α} (h : Fails ModelError.InDocuments x) :
    Fails (fun e => ∀ s, e ≠ .store s) x := by
  rintro e he s rfl
  exact h _ he

theorem Resolution.learn_not_store (known : Directory Json) (ids : List Text)
    (answer : List Json) : Fails (fun e => ∀ s, e ≠ .store s) (learn known ids answer) := by
  rintro e he s rfl
  rcases learn_eq_error he with h | ⟨_, _, _, _, _, h⟩
  · exact h
  · cases h

namespace Client

variable {c : Client Script}

def vertices {σ : Type} (c : Client σ) (statement : Statement) :
    StoreAction (Session σ) (List Json) := do
  let results ← c.ask statement
  results.vertexDocuments

theorem run_vertices_script (hstore : c.store = Script.store) (statement : Statement)
    (session : Session Script) : (c.vertices statement).run session =
      (Script.results session.store.head? >>= Results.vertexDocuments,
        ⟨session.store.tail, session.sent ++ [.query c.graphName statement]⟩) := by
  rw [vertices, run_bind, run_ask_script hstore]
  cases Script.results session.store.head? <;> rfl

theorem heeds_vertices (hstore : c.store = Script.store) (statement : Statement) :
    Heeds id (c.vertices statement) :=
  Heeds.single (fun reply => Script.results reply >>= Results.vertexDocuments)
    (run_vertices_script hstore statement) fun _ _ => Request.failsOn_query

theorem heeds_resolver (hstore : c.store = Script.store) (ids : List Text) :
    Heeds ModelError.store (c.resolver ids) := by
  refine Heeds.bind ?_ fun _ _ _ _ => Heeds.pure _
  exact Heeds.adapt (fun e s => ModelError.store.injEq e s ▸ Iff.rfl)
    (Heeds.mapM fun part _ => heeds_vertices hstore (.modelsAmong part))

theorem heeds_complete (hstore : c.store = Script.store) (rounds : Nat)
    (known : Directory Json) :
    Heeds ModelError.store (Resolution.complete c.resolver rounds known) := by
  induction rounds generalizing known with
  | zero =>
    refine Heeds.bind_lift ((Resolution.fails_missing known).inDocuments.not_store) fun ids _ => ?_
    split
    · exact Heeds.pure _
    · exact Heeds.throw fun s => nofun
  | succ rounds ih =>
    refine Heeds.bind_lift ((Resolution.fails_missing known).inDocuments.not_store) fun ids _ => ?_
    split
    · exact Heeds.pure _
    · refine Heeds.bind (heeds_resolver hstore ids) fun answer _ _ _ => ?_
      refine Heeds.bind_lift (Resolution.learn_not_store known ids answer) fun learned _ => ?_
      exact ih learned

theorem heeds_collect (hstore : c.store = Script.store) (rounds : Nat) (documents : List Json) :
    Heeds ModelError.store (Resolution.collect rounds c.resolver documents) :=
  Heeds.bind_lift (Document.fails_flatten documents).inDocuments.not_store fun flat _ =>
    Heeds.bind_lift (Resolution.fails_enterItems _ flat).not_store fun entered _ =>
      heeds_complete hstore rounds entered

theorem heeds_readInterfaces (hstore : c.store = Script.store) (rounds : Nat)
    (documents : List Json) :
    Heeds ModelError.store (readInterfaces rounds c.resolver documents) := by
  refine Heeds.bind (heeds_collect hstore rounds documents) fun known s s' hcollect => ?_
  have hmissing := Resolution.collect_missing hcollect
  refine Heeds.bind_lift (fails_readDeclarations known).inDocuments.not_store fun declared hread => ?_
  have hclosed := Interface.closed_of_missing hread hmissing
  exact Heeds.lift (Interface.fails_buildAll hclosed).inDocuments.not_store

theorem heeds_readModels (hreader : c.reader = readInterfaces) (hstore : c.store = Script.store)
    (documents : List Json) : Heeds ClientError.store (c.readModels documents) := by
  have h : ∀ rounds, Heeds ClientError.store
      ((readInterfaces rounds c.resolver documents).adapt .ofModelError) := fun rounds =>
    Heeds.adapt (fun e s => ClientError.ofModelError_eq_store)
      (heeds_readInterfaces hstore rounds documents)
  intro session
  rw [c.run_readModels hreader]
  exact h _ session

end Client
end TwinGraph
