import TwinGraph.Client.Query
import TwinGraph.Proofs.Client.Calls

/-! The errors that an action ends with, and whether anything was sent before a request is
rejected. -/
namespace TwinGraph

open Outcome

variable {σ α β : Type} {Q : ClientError → Prop}

/-- Every error that the action ends with is of the kind. -/
def Raises (Q : ClientError → Prop) (action : Action σ α) : Prop :=
  ∀ s e s', action.run s = (.error e, s') → Q e

namespace Raises

theorem pure (a : α) : Raises Q (Pure.pure a : Action σ α) := by
  intro s e s' h
  cases h

theorem throw {e : ClientError} (h : Q e) : Raises Q (MonadExcept.throw e : Action σ α) := by
  intro s e' s' hrun
  cases hrun
  exact h

theorem lift {x : Except ClientError α} (h : ∀ e, x = .error e → Q e) :
    Raises Q (liftM x : Action σ α) := by
  intro s e s' hrun
  rw [run_lift] at hrun
  exact h e (Prod.mk.inj hrun).1

theorem bind {x : Action σ α} {f : α → Action σ β} (hx : Raises Q x)
    (hf : ∀ a, Raises Q (f a)) : Raises Q (x >>= f) := by
  intro s e s' h
  rw [run_bind] at h
  split at h
  · next a t hrun => exact hf a t e s' h
  · next e' t hrun =>
    cases h
    exact hx s e s' hrun

theorem map {x : Action σ α} (f : α → β) (hx : Raises Q x) : Raises Q (f <$> x) := by
  rw [map_eq_pure_bind]
  exact bind hx fun a => pure (f a)

theorem adapt (h : ∀ e, Q (.store e)) (x : StoreAction (Session σ) α) :
    Raises Q (x.adapt .store : Action σ α) := by
  intro s e s' hrun
  rw [run_adapt, Prod.mk.injEq] at hrun
  cases hx : (x.run s).1 with
  | error e' =>
    rw [hx] at hrun
    cases hrun.1
    exact h e'
  | ok a =>
    rw [hx] at hrun
    cases hrun.1

theorem ofStore (h : ∀ e, Q (.store e)) (x : Except StoreError α) :
    Raises Q (liftM (ClientError.ofStore x) : Action σ α) := by
  apply lift
  intro e he
  cases x with
  | error e' =>
    cases he
    exact h e'
  | ok a => cases he

theorem decode (h : Q (.badResult .unexpectedForm)) (decoder : Decoder α) (value : Json) :
    Raises Q (liftM (Client.decode decoder value) : Action σ α) := by
  apply lift
  intro e he
  unfold Client.decode at he
  split at he
  · cases he
  · cases he
    exact h

end Raises

/-- An error that says that the request itself is wrong comes before anything is done. -/
def RejectsFirst (action : Action σ α) : Prop :=
  ∀ s e s', action.run s = (.error e, s') → e.status = 400 → s' = s

namespace RejectsFirst

theorem of_raises {action : Action σ α} (h : Raises (fun e => e.status ≠ 400) action) :
    RejectsFirst action :=
  fun s e s' hrun hstatus => absurd hstatus (h s e s' hrun)

theorem bind_lift {x : Except ClientError α} {f : α → Action σ β}
    (hf : ∀ a, RejectsFirst (f a)) : RejectsFirst (liftM x >>= f) := by
  intro s e s' h hstatus
  rw [run_bind, run_lift] at h
  cases x with
  | error e' =>
    cases h
    rfl
  | ok a => exact hf a s e s' h hstatus

theorem bind {x : Action σ α} {f : α → Action σ β} (hx : RejectsFirst x)
    (hf : ∀ a, Raises (fun e => e.status ≠ 400) (f a)) : RejectsFirst (x >>= f) := by
  intro s e s' h hstatus
  rw [run_bind] at h
  split at h
  · next a t hrun => exact absurd hstatus (hf a t e s' h)
  · next e' t hrun =>
    cases h
    exact hx s e s' hrun hstatus

end RejectsFirst

namespace Client

variable (c : Client σ)

theorem raises_query (h : ∀ e, Q (.store e)) {statement : Statement}
    (hmark : Cypher.breaksOut statement.text = false) : Raises Q (c.query statement) := by
  have hcheck : checkStatement statement = .ok () := checkStatement_eq_ok.mpr hmark
  refine Raises.bind (Raises.lift fun e he => ?_) fun _ => Raises.adapt h _
  rw [hcheck] at he
  cases he

theorem raises_queryFirst (h : ∀ e, Q (.store e)) {statement : Statement}
    (hmark : Cypher.breaksOut statement.text = false) : Raises Q (c.queryFirst statement) :=
  Raises.bind (c.raises_query h hmark) fun results => Raises.ofStore h results.first?

theorem raises_execute (h : ∀ e, Q (.store e)) {statement : Statement}
    (hmark : Cypher.breaksOut statement.text = false) : Raises Q (c.execute statement) := by
  have hcheck : checkStatement statement = .ok () := checkStatement_eq_ok.mpr hmark
  refine Raises.bind (Raises.lift fun e he => ?_) fun _ => Raises.adapt h _
  rw [hcheck] at he
  cases he

theorem status_store (e : StoreError) : (ClientError.store e).status ≠ 400 := by
  simp [ClientError.status]

theorem rejectsFirst_query (statement : Statement) : RejectsFirst (c.query statement) :=
  RejectsFirst.bind_lift fun _ => RejectsFirst.of_raises (Raises.adapt status_store _)

theorem rejectsFirst_queryFirst (statement : Statement) : RejectsFirst (c.queryFirst statement) :=
  RejectsFirst.bind (c.rejectsFirst_query statement) fun results =>
    Raises.ofStore status_store results.first?

theorem rejectsFirst_runQuery (decoder : Decoder α) (query : Text) (cancelAfter : Option Nat) :
    RejectsFirst (c.runQuery decoder query cancelAfter) :=
  RejectsFirst.bind_lift fun statement =>
    RejectsFirst.bind (c.rejectsFirst_query statement) fun _ => Raises.pure _

theorem rejectsFirst_patchTwin (id : Text) (patch : List PatchOperation) (tag : Text) :
    RejectsFirst (c.patchTwin id patch tag) := by
  refine RejectsFirst.bind_lift fun clauses =>
    RejectsFirst.bind (c.rejectsFirst_queryFirst _) fun row => ?_
  split
  · exact Raises.throw (by simp [ClientError.status])
  · exact Raises.pure _

end Client
end TwinGraph
