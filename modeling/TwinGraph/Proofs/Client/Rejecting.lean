import TwinGraph.Proofs.Client.Operations
import TwinGraph.Proofs.Client.Sentences

/-! What was sent when a request is turned down. The checks of all operations come before anything
is written, and only two of them look up models before their last check. -/
namespace TwinGraph

open Outcome

variable {σ α β : Type} {P : Request → Prop}

/-- The request itself is at fault: its arguments, its query or its models. -/
inductive ClientError.TurnsDown : ClientError → Prop where
  | badArgument (fault) : TurnsDown (.badArgument fault)
  | validationFailed (violations) : TurnsDown (.validationFailed violations)
  | unsupportedOperation (name) : TurnsDown (.unsupportedOperation name)
  | invalidQuery (error) : TurnsDown (.invalidQuery error)
  | invalidModel (error) : TurnsDown (.invalidModel error)

theorem ClientError.turnsDown_iff {e : ClientError} : e.TurnsDown ↔ e.status = 400 := by
  constructor
  · rintro (_ | _ | _ | _ | _) <;> rfl
  · intro h
    cases e with
    | badArgument fault => exact .badArgument fault
    | validationFailed violations => exact .validationFailed violations
    | unsupportedOperation name => exact .unsupportedOperation name
    | invalidQuery error => exact .invalidQuery error
    | invalidModel error => exact .invalidModel error
    | _ => cases h

theorem Raises.forM {Q : ClientError → Prop} {f : α → Action σ PUnit} {as : List α}
    (h : ∀ a ∈ as, Raises Q (f a)) : Raises Q (as.forM f) := by
  induction as with
  | nil => exact Raises.pure PUnit.unit
  | cons a as ih =>
    rw [List.forall_mem_cons] at h
    exact Raises.bind h.1 fun _ => ih h.2

theorem RejectsFirst.throw (e : ClientError) : RejectsFirst (MonadExcept.throw e : Action σ α) := by
  intro s e' s' hrun _
  cases hrun
  rfl

theorem RejectsFirst.map {x : Action σ α} (f : α → β) (hx : RejectsFirst x) :
    RejectsFirst (f <$> x) := by
  rw [map_eq_pure_bind]
  exact bind hx fun a => Raises.pure (f a)

/-- Until it turns the request down, the action has sent requests of the kind only. -/
def RejectsAfter (P : Request → Prop) (action : Action σ α) : Prop :=
  ∀ s e s', action.run s = (.error e, s') → e.status = 400 →
    ∃ new, s'.sent = s.sent ++ new ∧ ∀ r ∈ new, P r

namespace RejectsAfter

theorem of_first {action : Action σ α} (h : RejectsFirst action) : RejectsAfter P action := by
  intro s e s' hrun hstatus
  rw [h s e s' hrun hstatus]
  exact ⟨[], (List.append_nil _).symm, by simp⟩

theorem of_raises {action : Action σ α} (h : Raises (fun e => e.status ≠ 400) action) :
    RejectsAfter P action :=
  of_first (.of_raises h)

theorem throw (e : ClientError) : RejectsAfter P (MonadExcept.throw e : Action σ α) :=
  of_first (.throw e)

theorem bind {x : Action σ α} {f : α → Action σ β} (hx : Logs P x)
    (hf : ∀ a, RejectsAfter P (f a)) : RejectsAfter P (x >>= f) := by
  intro s e s' h hstatus
  obtain ⟨new, hnew, hP⟩ := hx s
  rw [run_bind] at h
  split at h
  · next a t hrun =>
    obtain ⟨more, hmore, hP'⟩ := hf a t e s' h hstatus
    rw [hrun] at hnew
    refine ⟨new ++ more, ?_, List.forall_mem_append.mpr ⟨hP, hP'⟩⟩
    rw [hmore, ← List.append_assoc, ← hnew]
  · next e' t hrun =>
    cases h
    rw [hrun] at hnew
    exact ⟨new, hnew, hP⟩

theorem bind_lift {x : Except ClientError α} {f : α → Action σ β}
    (hf : ∀ a, RejectsAfter P (f a)) : RejectsAfter P (liftM x >>= f) :=
  bind (Logs.lift x) hf

theorem map {x : Action σ α} (f : α → β) (hx : RejectsAfter P x) : RejectsAfter P (f <$> x) := by
  intro s e s' h hstatus
  rw [map_eq_pure_bind, run_bind] at h
  split at h
  · cases h
  · next e' t hrun =>
    cases h
    exact hx s e s' hrun hstatus

end RejectsAfter

namespace Client

variable (c : Client σ)

/-- What answers a request that was sent is never a reason to turn it down. -/
theorem raises_statement {statement : Statement} (hnative : statement.isNative = false)
    (hpatch : statement.isPatch = false) :
    Raises (fun e => e.status ≠ 400) (c.queryFirst statement) :=
  c.raises_queryFirst status_store (Statement.not_breaksOut statement hnative hpatch)

theorem rejectsAfter_putTwin (hreader : c.AsksOnly) (decoder : Decoder α) (id : Text)
    (document : Json) (tag : Text) :
    RejectsAfter (Request.LooksUp c.graphName) (c.putTwin decoder id document tag) := by
  unfold Client.putTwin
  split
  · refine RejectsAfter.bind_lift fun _ => RejectsAfter.bind_lift fun model => ?_
    refine RejectsAfter.bind (c.logs_interface hreader (Or.inl ⟨model, rfl⟩)
      fun ids => Or.inr ⟨ids, rfl⟩) fun interface => ?_
    dsimp only
    split
    · refine RejectsAfter.of_raises (Raises.bind (c.raises_statement rfl rfl) fun row => ?_)
      split
      · exact Raises.decode (by decide) decoder _
      · exact Raises.throw (by simp [ClientError.status])
    · exact RejectsAfter.throw _
  · exact RejectsAfter.throw _

theorem rejectsAfter_createModels (hreader : c.AsksOnly) (batch : List Json) :
    RejectsAfter (Request.LooksUp c.graphName) (c.createModels batch) := by
  unfold Client.createModels
  refine RejectsAfter.bind_lift fun documents => ?_
  dsimp only
  split
  · exact RejectsAfter.throw _
  · refine RejectsAfter.bind (c.logs_readModels hreader (fun ids => Or.inr ⟨ids, rfl⟩) documents)
      fun interfaces => RejectsAfter.of_raises ?_
    refine Raises.bind (c.raises_query status_store (Statement.not_breaksOut _ rfl rfl))
      fun results => Raises.bind (Raises.ofStore status_store _) fun created => ?_
    refine Raises.bind (Raises.forM fun link _ => ?_) fun _ => Raises.pure _
    exact Raises.map _ (c.raises_execute status_store (Statement.not_breaksOut _ rfl rfl))

theorem rejectsFirst_putRelationship (decoder : Decoder α) (source id : Text) (document : Json)
    (tag : Text) : RejectsFirst (c.putRelationship decoder source id document tag) := by
  unfold Client.putRelationship
  split
  · refine RejectsFirst.bind_lift fun (name, target) =>
      RejectsFirst.bind (c.rejectsFirst_queryFirst _) fun row => ?_
    split
    · exact Raises.decode (by decide) decoder _
    · exact Raises.throw (by simp [ClientError.status])
  · exact RejectsFirst.throw _

theorem rejectsFirst_deleteRelationship (source id name : Text) :
    RejectsFirst (c.deleteRelationship source id name) := by
  refine RejectsFirst.bind_lift fun label => RejectsFirst.of_raises ?_
  refine Raises.bind (c.raises_execute status_store (Statement.not_breaksOut _ rfl rfl))
    fun count => ?_
  split
  · exact Raises.throw (by simp [ClientError.status])
  · exact Raises.pure _

end Client

namespace Operation

variable (c : Client σ) (decoder : Decoder α)

def looksUp : Operation → Bool
  | call (.putTwin _ _ _) | call (.createModels _) => true
  | _ => false

theorem Meets.status {e : ClientError} (h : Meets e) : e.status ≠ 400 := by
  cases h <;> simp [ClientError.status]

theorem rejectsFirst_of_not_looksUp {operation : Operation} (h : operation.looksUp = false) :
    RejectsFirst (operation.perform c decoder) := by
  have hid : operation.isById = true → RejectsFirst (operation.perform c decoder) := fun hid =>
    RejectsFirst.of_raises fun s e s' hrun => (raises_perform c decoder hid s e s' hrun).status
  cases operation with
  | call call =>
    cases call with
    | putTwin | createModels => cases h
    | patchTwin id patch tag => exact RejectsFirst.map _ (c.rejectsFirst_patchTwin id patch tag)
    | putRelationship source id document tag =>
      exact RejectsFirst.map _
        (RejectsFirst.map _ (c.rejectsFirst_putRelationship decoder source id document tag))
    | deleteRelationship source id name =>
      exact RejectsFirst.map _ (c.rejectsFirst_deleteRelationship source id name)
    | listModels cancelAfter =>
      exact RejectsFirst.map _ (RejectsFirst.bind (c.rejectsFirst_query _) fun _ => Raises.pure _)
    | _ => exact hid rfl
  | query text cancelAfter =>
    exact RejectsFirst.map _ (c.rejectsFirst_runQuery decoder text cancelAfter)
  | createGraph =>
    refine RejectsFirst.map _ (RejectsFirst.of_raises (Raises.forM fun statement _ => ?_))
    exact Raises.map _ (Raises.adapt Client.status_store _)
  | dropGraph =>
    refine RejectsFirst.map _ (RejectsFirst.of_raises ?_)
    exact Raises.map _ (Raises.adapt Client.status_store _)

theorem rejectsAfter_perform (hreader : c.AsksOnly) (operation : Operation) :
    RejectsAfter (Request.LooksUp c.graphName) (operation.perform c decoder) := by
  cases hlooks : operation.looksUp with
  | false => exact RejectsAfter.of_first (rejectsFirst_of_not_looksUp c decoder hlooks)
  | true =>
    cases operation with
    | call call =>
      cases call with
      | putTwin id document tag =>
        exact RejectsAfter.map _
          (RejectsAfter.map _ (c.rejectsAfter_putTwin hreader decoder id document tag))
      | createModels batch =>
        exact RejectsAfter.map _ (RejectsAfter.map _ (c.rejectsAfter_createModels hreader batch))
      | _ => cases hlooks
    | _ => cases hlooks

theorem raised_of_mem_errors {operation : Operation} {session : Session σ} {e : ClientError}
    (he : e ∈ operation.errors c decoder session) (hstatus : e.status = 400) :
    ((operation.perform c decoder).run session).1 = .error e := by
  unfold errors at he
  split at he
  · next found after hrun =>
    exact absurd hstatus (meets_of_mem_rows c decoder hrun he).status
  · next e' after hrun =>
    cases List.mem_singleton.mp he
    rw [hrun]

end Operation

/-- When an operation turns a request down, all that it has sent are lookups of models. It has sent
nothing at all, and the store is as it was, unless a twin or models were to be written. -/
theorem Client.turns_down_unwritten {c : Client σ} (hreader : c.AsksOnly) (decoder : Decoder α)
    (operation : Operation) (session : Session σ) {e : ClientError}
    (he : e ∈ operation.errors c decoder session) (hdown : e.TurnsDown) :
    (∃ lookups, ((operation.perform c decoder).run session).2.sent = session.sent ++ lookups ∧
      ∀ request ∈ lookups, request.ReadsModels c.graphName) ∧
    (operation.looksUp = false → ((operation.perform c decoder).run session).2 = session) := by
  have hstatus := ClientError.turnsDown_iff.mp hdown
  have hrun := Operation.raised_of_mem_errors c decoder he hstatus
  constructor
  · have hrejects := Operation.rejectsAfter_perform c decoder hreader operation
    obtain ⟨lookups, hsent, hlookups⟩ := hrejects session e _ (Prod.ext hrun rfl) hstatus
    exact ⟨lookups, hsent, fun request hrequest => (hlookups request hrequest).readsModels⟩
  · intro hlooks
    exact Operation.rejectsFirst_of_not_looksUp c decoder hlooks session e _ (Prod.ext hrun rfl)
      hstatus

namespace Operation

def misfit : Operation :=
  .call (.putTwin "hall"
    (.object [("$metadata", .object [("$model", .string "dtmi:example:Space;1")]),
      ("area", .string "large")]) "1")

theorem misfit_stays_unwritten :
    (∃ lookup, ((misfit.perform Call.scripted Decoder.json).run
        ⟨[Call.modelReply spaceModel], []⟩).2.sent = [lookup] ∧
      lookup.ReadsModels Call.scripted.graphName) ∧
    ((Client.hostileQuery.perform Call.scripted Decoder.json).run ⟨[], []⟩).2 = ⟨[], []⟩ := by
  have hreader : Call.scripted.AsksOnly := Client.asksOnly_of_eq rfl
  have hmisfit : .validationFailed ["Property 'area': \"large\" is not a numeric value"] ∈
      misfit.errors Call.scripted Decoder.json ⟨[Call.modelReply spaceModel], []⟩ := by
    decide +kernel
  have hquery : .badArgument .breaksOut ∈
      Client.hostileQuery.errors Call.scripted Decoder.json ⟨[], []⟩ := by
    decide +kernel
  obtain ⟨⟨lookups, hsent, hlookups⟩, -⟩ :=
    Client.turns_down_unwritten hreader Decoder.json misfit _ hmisfit (.validationFailed _)
  refine ⟨?_, (Client.turns_down_unwritten hreader Decoder.json Client.hostileQuery _ hquery
    (.badArgument _)).2 rfl⟩
  have hone : ((misfit.perform Call.scripted Decoder.json).run
      ⟨[Call.modelReply spaceModel], []⟩).2.sent.length = 1 := by decide +kernel
  rw [hsent] at hone ⊢
  obtain ⟨lookup, rfl⟩ := List.length_eq_one_iff.mp hone
  exact ⟨lookup, rfl, hlookups lookup (List.mem_singleton_self lookup)⟩

end Operation
end TwinGraph
