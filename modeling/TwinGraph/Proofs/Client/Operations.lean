import TwinGraph.Client.Provisioning
import TwinGraph.Proofs.Client.Alike
import TwinGraph.Proofs.Client.Raising

/-! Everything that a client can be asked to do, one thing after another, and what of it reaches
the store. Statements travel between two `$$` marks, and no statement holds such a mark. -/
namespace TwinGraph

open Outcome

variable {σ α : Type}

inductive Operation where
  | call (call : Call)
  | query (text : Text) (cancelAfter : Option Nat)
  | createGraph
  | dropGraph

def rowErrors (items : List (Except ClientError α)) : List ClientError :=
  items.filterMap fun
    | .error e => some e
    | .ok _ => none

namespace Operation

def perform (c : Client σ) (decoder : Decoder α) : Operation → Action σ (List ClientError)
  | call (.listRelationships source name cancelAfter) =>
    rowErrors <$> c.listRelationships decoder source name cancelAfter
  | call (.listIncoming target cancelAfter) => rowErrors <$> c.listIncoming target cancelAfter
  | call (.listModels cancelAfter) => rowErrors <$> c.listModels decoder cancelAfter
  | call other => (fun _ => []) <$> other.perform c decoder
  | query text cancelAfter => rowErrors <$> c.runQuery decoder text cancelAfter
  | createGraph => (fun _ => []) <$> c.createGraph
  | dropGraph => (fun _ => []) <$> c.dropGraph

def errors (c : Client σ) (decoder : Decoder α) (operation : Operation) (session : Session σ) :
    List ClientError :=
  match (operation.perform c decoder).run session with
  | (.ok errors, _) => errors
  | (.error e, _) => [e]

/-- Lookups and deletions that are given ids, and no text that has to be a name. -/
def isById : Operation → Bool
  | call (.getTwin _) | call (.deleteTwin _) | call (.getModel _) | call (.deleteModel _)
  | call (.getRelationship _ _) | call (.listRelationships _ _ _) | call (.listIncoming _ _) => true
  | _ => false

def isQueryOrPatch : Operation → Bool
  | query _ _ | call (.patchTwin _ _ _) => true
  | _ => false

end Operation

inductive Client.Runs (c : Client σ) : Session σ → Session σ → Prop where
  | nil (s) : c.Runs s s
  | cons {α : Type} {s t} (decoder : Decoder α) (operation : Operation) :
      c.Runs ((operation.perform c decoder).run s).2 t → c.Runs s t

/-- No statement of the query language that is sent holds the mark. -/
def Request.Encloses : Request → Prop
  | query _ statement | execute _ statement => ¬['$', '$'] <:+: statement.text
  | sql _ => True

theorem Text.contains_eq_true {pattern s : Text} :
    Text.contains pattern s = true ↔ pattern <:+: s := by
  induction s with
  | nil => rw [contains, List.isEmpty_iff, List.infix_nil]
  | cons c s ih =>
    rw [contains, Bool.or_eq_true, List.isPrefixOf_iff_prefix, ih, List.infix_cons_iff]

theorem not_infix_of_breaksOut {s : Text} (h : Cypher.breaksOut s = false) :
    ¬['$', '$'] <:+: s := by
  rw [← Text.contains_eq_true]
  exact Bool.eq_false_iff.mp h

namespace Logs

variable {β : Type} {P P' : Request → Prop}

theorem mono {x : Action σ α} (h : ∀ r, P r → P' r) (hx : Logs P x) : Logs P' x := by
  intro session
  obtain ⟨new, hnew, hP⟩ := hx session
  exact ⟨new, hnew, fun r hr => h r (hP r hr)⟩

theorem of_map {f : α → β} {x : Action σ α} (h : Logs P (f <$> x)) : Logs P x := by
  intro session
  obtain ⟨new, hnew, hP⟩ := h session
  refine ⟨new, ?_, hP⟩
  rw [← hnew, map_eq_pure_bind, run_bind]
  split
  · next a s hrun => rw [hrun]; rfl
  · next e s hrun => rw [hrun]

end Logs

namespace Operation

variable (c : Client σ)

theorem encloses_of_sends {call : Call} {r : Request} (h : call.Sends c.graphName r) :
    r.Encloses := by
  obtain ⟨statement, rfl | rfl, -, hmark⟩ := h
  · exact not_infix_of_breaksOut hmark
  · exact not_infix_of_breaksOut hmark

theorem logs_executeSql {P : Request → Prop} {statement : Text} (h : P (.sql statement)) :
    Logs P (c.executeSql statement) :=
  Logs.adapt _ (Logs.send h _)

theorem logs_perform (hreader : c.AsksOnly) (decoder : Decoder α) (operation : Operation) :
    Logs Request.Encloses (operation.perform c decoder) := by
  have hcall : ∀ call : Call, Logs Request.Encloses (call.perform c decoder) := fun call =>
    (Call.logs_composed c hreader decoder call).mono fun r => encloses_of_sends c
  cases operation with
  | call call =>
    have h := hcall call
    cases call with
    | listRelationships | listIncoming | listModels => exact Logs.map _ (Logs.of_map h)
    | _ => exact Logs.map _ h
  | query text cancelAfter =>
    refine Logs.map _ (Logs.bind_lift fun statement _ => ?_)
    exact Logs.bind (c.logs_query not_infix_of_breaksOut) fun _ _ _ _ => Logs.pure _
  | createGraph =>
    refine Logs.map _ (Logs.forM fun statement _ => Logs.map _ (logs_executeSql c trivial))
  | dropGraph => exact Logs.map _ (Logs.map _ (logs_executeSql c trivial))

theorem mem_rowErrors_decodeRows {decodeRow : Row → Except ClientError α}
    {cancelAfter : Option Nat} {results : Results} {e : ClientError}
    (h : e ∈ rowErrors (Client.decodeRows decodeRow cancelAfter results)) :
    (∃ row, decodeRow row = .error e) ∨ (∃ e', e = .store e') ∨ e = .cancelled := by
  obtain ⟨item, hitem, hmatch⟩ := List.mem_filterMap.mp h
  obtain rfl : item = .error e := by
    cases item with
    | error e' => exact congrArg Except.error (Option.some.inj hmatch)
    | ok a => cases hmatch
  clear h hmatch
  fun_induction Client.decodeRows decodeRow cancelAfter results with
  | case1 =>
    cases List.mem_singleton.mp hitem
    exact Or.inr (Or.inr rfl)
  | case2 => cases hitem
  | case3 =>
    cases List.mem_singleton.mp hitem
    exact Or.inr (Or.inl ⟨_, rfl⟩)
  | case4 row results ih =>
    rcases List.mem_cons.mp hitem with hitem | hitem
    · exact Or.inl ⟨row, hitem.symm⟩
    · exact ih hitem
  | case5 looks row results ih =>
    rcases List.mem_cons.mp hitem with hitem | hitem
    · exact Or.inl ⟨row, hitem.symm⟩
    · exact ih hitem

/-- The kinds of errors that a request about an id can meet. -/
inductive Meets : ClientError → Prop where
  | store (e) : Meets (.store e)
  | notFound (what) : Meets (.notFound what)
  | modelNotFound (id) : Meets (.modelNotFound id)
  | badResult (fault) : Meets (.badResult fault)
  | cancelled : Meets .cancelled

theorem Meets.of_decode {decoder : Decoder α} {value : Json} {e : ClientError}
    (h : Client.decode decoder value = .error e) : Meets e := by
  unfold Client.decode at h
  split at h
  · cases h
  · cases h
    exact .badResult _

variable (decoder : Decoder α)

/-- A lookup or deletion by id ends with such errors only: the client's own statements hold no mark,
whatever the id. -/
theorem raises_perform {operation : Operation} (h : operation.isById = true) :
    Raises Meets (operation.perform c decoder) := by
  have hstatement : ∀ statement : Statement, statement.isNative = false →
      statement.isPatch = false → Cypher.breaksOut statement.text = false :=
    Statement.not_breaksOut
  cases operation with
  | call call =>
    cases call with
    | getTwin id =>
      refine Raises.map _ (Raises.map _ (Raises.bind
        (c.raises_queryFirst .store (hstatement _ rfl rfl)) fun row => ?_))
      split
      · exact Raises.decode (.badResult _) decoder _
      · exact Raises.throw (.notFound _)
    | deleteTwin id =>
      refine Raises.map _ (Raises.bind (c.raises_execute .store (hstatement _ rfl rfl))
        fun count => ?_)
      split
      · exact Raises.throw (.notFound _)
      · exact Raises.pure _
    | getModel id =>
      refine Raises.map _ (Raises.map _ (Raises.bind (Raises.bind
        (c.raises_queryFirst .store (hstatement _ rfl rfl)) fun row => ?_) fun document => ?_))
      · split
        · exact Raises.pure _
        · exact Raises.throw (.modelNotFound _)
      · exact Raises.decode (.badResult _) decoder _
    | deleteModel id =>
      refine Raises.map _ (Raises.bind (c.raises_execute .store (hstatement _ rfl rfl))
        fun count => ?_)
      split
      · exact Raises.throw (.modelNotFound _)
      · exact Raises.pure _
    | getRelationship source id =>
      refine Raises.map _ (Raises.map _ (Raises.bind
        (c.raises_queryFirst .store (hstatement _ rfl rfl)) fun row => ?_))
      split
      · exact Raises.decode (.badResult _) decoder _
      · exact Raises.throw (.notFound _)
    | listRelationships source name cancelAfter =>
      exact Raises.map _ (Raises.bind (c.raises_query .store (hstatement _ rfl rfl))
        fun results => Raises.pure _)
    | listIncoming target cancelAfter =>
      exact Raises.map _ (Raises.bind (c.raises_query .store (hstatement _ rfl rfl))
        fun results => Raises.pure _)
    | _ => cases h
  | _ => cases h

theorem run_map_eq_ok {β : Type} {f : α → β} {x : Action σ α} {s s' : Session σ} {b : β}
    (h : (f <$> x).run s = (.ok b, s')) : ∃ a, x.run s = (.ok a, s') ∧ b = f a := by
  rw [map_eq_pure_bind] at h
  obtain ⟨a, t, hx, hpure⟩ := run_bind_eq_ok.mp h
  cases hpure
  exact ⟨a, hx, rfl⟩

theorem meets_of_mem_rows {operation : Operation} {session after : Session σ}
    {found : List ClientError} (hrun : (operation.perform c decoder).run session = (.ok found, after))
    {e : ClientError} (he : e ∈ found) : Meets e := by
  have hrows : ∀ {β : Type} {decodeRow : Row → Except ClientError β} {cancelAfter : Option Nat}
      {results : Results}, (∀ row e, decodeRow row = .error e → Meets e) →
      e ∈ rowErrors (Client.decodeRows decodeRow cancelAfter results) → Meets e := by
    intro β decodeRow cancelAfter results hrow he
    rcases mem_rowErrors_decodeRows he with ⟨row, h⟩ | ⟨e', rfl⟩ | rfl
    · exact hrow row e h
    · exact .store e'
    · exact .cancelled
  cases operation with
  | call call =>
    cases call with
    | listRelationships source name cancelAfter =>
      obtain ⟨items, hitems, rfl⟩ := run_map_eq_ok hrun
      obtain ⟨results, t, -, hpure⟩ := run_bind_eq_ok.mp hitems
      cases hpure
      refine hrows (fun row e' hrow => ?_) he
      split at hrow
      · exact .of_decode hrow
      · cases hrow
        exact .notFound _
    | listIncoming target cancelAfter =>
      obtain ⟨items, hitems, rfl⟩ := run_map_eq_ok hrun
      obtain ⟨results, t, -, hpure⟩ := run_bind_eq_ok.mp hitems
      cases hpure
      refine hrows (fun row e' hrow => ?_) he
      unfold IncomingRelationship.ofRow at hrow
      dsimp only at hrow
      split at hrow
      · cases hrow
      · cases hrow
        exact .notFound _
    | listModels cancelAfter =>
      obtain ⟨items, hitems, rfl⟩ := run_map_eq_ok hrun
      obtain ⟨results, t, -, hpure⟩ := run_bind_eq_ok.mp hitems
      cases hpure
      refine hrows (fun row e' hrow => ?_) he
      split at hrow
      · exact .of_decode hrow
      · cases hrow
        exact .badResult _
    | _ =>
      obtain ⟨-, -, rfl⟩ := run_map_eq_ok hrun
      cases he
  | query text cancelAfter =>
    obtain ⟨items, hitems, rfl⟩ := run_map_eq_ok hrun
    obtain ⟨statement, -, hitems⟩ := run_lift_bind_eq_ok.mp hitems
    obtain ⟨results, t, -, hpure⟩ := run_bind_eq_ok.mp hitems
    cases hpure
    exact hrows (fun row e' hrow => .of_decode hrow) he
  | _ =>
    obtain ⟨-, -, rfl⟩ := run_map_eq_ok hrun
    cases he

theorem meets_of_mem_errors {operation : Operation} (h : operation.isById = true)
    {session : Session σ} {e : ClientError} (he : e ∈ operation.errors c decoder session) :
    Meets e := by
  unfold errors at he
  split at he
  · next found after hrun => exact meets_of_mem_rows c decoder hrun he
  · next e' after hrun =>
    cases List.mem_singleton.mp he
    exact raises_perform c decoder h session e after hrun

theorem rejectsFirst_perform {operation : Operation} (h : operation.isQueryOrPatch = true) :
    RejectsFirst (operation.perform c decoder) := by
  have hmap : ∀ {β γ : Type} (f : β → γ) {x : Action σ β}, RejectsFirst x →
      RejectsFirst (f <$> x) := fun f x hx => by
    rw [map_eq_pure_bind]
    exact RejectsFirst.bind hx fun a => Raises.pure (f a)
  cases operation with
  | query text cancelAfter => exact hmap _ (c.rejectsFirst_runQuery decoder text cancelAfter)
  | call call =>
    cases call with
    | patchTwin id patch tag => exact hmap _ (c.rejectsFirst_patchTwin id patch tag)
    | _ => cases h
  | _ => cases h

end Operation

namespace Client

def Enclosed (session : Session σ) : Prop := ∀ request ∈ session.sent, request.Encloses

theorem step_preserves_enclosed {c : Client σ} (hreader : c.AsksOnly) (decoder : Decoder α)
    (operation : Operation) {s : Session σ} (hs : Enclosed s) :
    Enclosed ((operation.perform c decoder).run s).2 := by
  obtain ⟨new, hnew, henclosed⟩ := Operation.logs_perform c hreader decoder operation s
  intro request hrequest
  rw [hnew] at hrequest
  rcases List.mem_append.mp hrequest with h | h
  · exact hs request h
  · exact henclosed request h

theorem runs_preserves_enclosed {c : Client σ} (hreader : c.AsksOnly) {s t : Session σ}
    (h : c.Runs s t) (hs : Enclosed s) : Enclosed t := by
  induction h with
  | nil s => exact hs
  | cons decoder operation _ ih => exact ih (step_preserves_enclosed hreader decoder operation hs)

/-- However often and with whatever arguments a client is asked, no statement that it sends holds
the mark between which statements travel. Lookups and deletions by id do not even have to be
refused, and a query or patch that is refused comes before anything is sent. -/
theorem statements_stay_enclosed {c : Client σ} (hreader : c.AsksOnly) :
    (∀ state after, c.Runs ⟨state, []⟩ after → Enclosed after) ∧
    (∀ {α : Type} (decoder : Decoder α) (operation : Operation) (session : Session σ),
      operation.isById = true →
        ClientError.badArgument .breaksOut ∉ operation.errors c decoder session) ∧
    ∀ {α : Type} (decoder : Decoder α) (operation : Operation) (session : Session σ)
      (e : ClientError), operation.isQueryOrPatch = true →
        ((operation.perform c decoder).run session).1 = .error e → e.status = 400 →
          ((operation.perform c decoder).run session).2 = session := by
  refine ⟨fun state after h => ?_, fun decoder operation session h he => ?_,
    fun decoder operation session e h hrun hstatus => ?_⟩
  · exact runs_preserves_enclosed hreader h fun request hrequest => by cases hrequest
  · cases Operation.meets_of_mem_errors c decoder h he
  · exact Operation.rejectsFirst_perform c decoder h session e _ (Prod.ext hrun rfl) hstatus

def hostileLookup : Operation := .call (.getTwin "$$$'")

def hostileQuery : Operation := .query "SELECT T FROM DIGITALTWINS T WHERE T.x = '$$'" none

/-- The lookup is sent, with other characters for some of the dollar signs; the query is not. -/
theorem hostile_requests_stay_enclosed :
    Enclosed ((hostileLookup.perform Call.scripted Decoder.json).run ⟨[], []⟩).2 ∧
    ((hostileLookup.perform Call.scripted Decoder.json).run ⟨[], []⟩).2.sent.length = 1 ∧
    .badArgument .breaksOut ∉ hostileLookup.errors Call.scripted Decoder.json ⟨[], []⟩ ∧
    ((hostileQuery.perform Call.scripted Decoder.json).run ⟨[], []⟩).1 =
      .error (.badArgument .breaksOut) ∧
    ((hostileQuery.perform Call.scripted Decoder.json).run ⟨[], []⟩).2 = ⟨[], []⟩ := by
  have hreader : Call.scripted.AsksOnly := asksOnly_of_eq rfl
  obtain ⟨hruns, hids, hrejects⟩ := statements_stay_enclosed hreader
  have hrefused : ((hostileQuery.perform Call.scripted Decoder.json).run ⟨[], []⟩).1 =
      .error (.badArgument .breaksOut) := by
    decide +kernel
  refine ⟨?_, by decide +kernel, hids Decoder.json hostileLookup _ rfl, hrefused, ?_⟩
  · exact hruns [] _ (.cons Decoder.json hostileLookup (.nil _))
  · exact hrejects Decoder.json hostileQuery ⟨[], []⟩ _ rfl hrefused rfl

end Client
end TwinGraph
