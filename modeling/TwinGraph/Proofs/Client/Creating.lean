import TwinGraph.Proofs.Client.Answering
import TwinGraph.Proofs.Client.Registering
import TwinGraph.Proofs.Client.Sentences
import TwinGraph.Proofs.Json.RoundTrip

/-! Creating models. Behind the lookups of the parse, and only if it succeeds, one statement creates
all vertices and one statement each creates an edge; the first failure ends the run. -/
namespace TwinGraph

open Outcome

variable {σ : Type}

namespace Document

def extended (document : Json) : List Json :=
  match document.field? "extends" with
  | none => []
  | some (.array items) => items
  | some single => [single]

def entryId : Json → Text
  | .string id => id
  | other => Document.id other

theorem entryId_of_parentId {entry : Json} {id : Text} (h : parentId entry = .ok id) :
    entryId entry = id := by
  cases entry with
  | string text =>
    unfold parentId at h
    dsimp only at h
    split at h
    · exact Except.ok.inj h
    · cases h
  | object fields => exact id_of_interfaceId h
  | _ => cases h

theorem map_entryId {document : Json} {parents : List Text}
    (h : parentIds document = .ok parents) : (extended document).map entryId = parents := by
  unfold parentIds at h
  unfold extended
  cases hfield : document.field? "extends" with
  | none =>
    rw [hfield] at h
    cases h
    rfl
  | some value =>
    rw [hfield] at h
    cases value with
    | array items =>
      have hall := mapM_eq_ok.mp h
      clear h hfield
      induction hall with
      | nil => rfl
      | cons hentry _ ih => exact congrArg₂ List.cons (entryId_of_parentId hentry) ih
    | _ =>
      obtain ⟨parent, hparent, h⟩ := bind_eq_ok.mp h
      cases h
      exact congrArg (fun id => [id]) (entryId_of_parentId hparent)

theorem wellFormed_of_flatten {batch documents : List Json} (hw : ∀ d ∈ batch, d.WellFormed)
    (h : flatten batch = .ok documents) : ∀ d ∈ documents, d.WellFormed := by
  induction batch generalizing documents with
  | nil =>
    cases h
    simp
  | cons d batch ih =>
    rw [List.forall_mem_cons] at hw
    cases d with
    | object fields =>
      obtain ⟨rest, hrest, h⟩ := bind_eq_ok.mp h
      cases h
      exact List.forall_mem_cons.mpr ⟨hw.1, ih hw.2 hrest⟩
    | array items =>
      unfold flatten at h
      split at h
      · obtain ⟨rest, hrest, h⟩ := bind_eq_ok.mp h
        cases h
        exact List.forall_mem_append.mpr ⟨Json.wellFormedItems_iff.mp hw.1, ih hw.2 hrest⟩
      · cases h
    | _ => cases h

end Document

theorem Results.rows_eq_ok {results : Results} {rows : List Row} :
    results.rows = .ok rows ↔ results = rows.map Except.ok := by
  rw [Results.rows, mapM_eq_ok]
  constructor
  · intro h
    induction h with
    | nil => rfl
    | cons hitem _ ih => exact congrArg₂ List.cons hitem ih
  · rintro rfl
    exact mapM_eq_ok.mp (rows_map_ok rows)

def extensionLinks (documents : List Json) : List (Text × Text) :=
  documents.flatMap fun document =>
    (Document.extended document).map fun entry => (Document.id document, Document.entryId entry)

def creation (graph : Text) (documents : List Json) : List Request :=
  .query graph (.createModels documents) ::
    (extensionLinks documents).map fun (id, parent) => .execute graph (.linkModel id parent)

namespace Resolution

theorem batch_known {resolver : Resolver σ} {rounds : Nat} {batch documents : List Json} {s s' : σ}
    {known : Directory Json} (hflat : Document.flatten batch = .ok documents)
    (h : (collect rounds resolver batch).run s = (.ok known, s')) :
    ∀ d ∈ documents, d.stringField? "@id" = some (Document.id d) ∧
      known.find? (Document.id d) = some d := by
  obtain ⟨history, tops, htops, hb⟩ := knows_of_collect h
  rw [hflat] at htops
  obtain rfl := Except.ok.inj htops
  intro d hd
  have hobject := Document.objects_of_flatten hflat d hd
  have hwritten : d ∈ writtenAmong (documents ++ history.flatMap Round.brought) :=
    mem_writtenAmong.mpr ⟨d, List.mem_append_left _ hd, hobject, mem_written_self hobject⟩
  exact ⟨Document.stringField_of_interfaceId (hb.valid d hwritten),
    (hb.find? _ _).mpr ⟨hwritten, rfl⟩⟩

end Resolution

namespace Client

theorem inheritanceLinks_eq {resolver : Resolver σ} {rounds : Nat} {documents : List Json}
    {s s' : σ} {interfaces : Directory Interface} (hobjects : ∀ d ∈ documents, d.isObject = true)
    (h : (readInterfaces rounds resolver documents).run s = (.ok interfaces, s')) :
    inheritanceLinks interfaces documents = extensionLinks documents := by
  obtain ⟨known, declared, hcollect, hread, hbuild⟩ := readInterfaces_eq_ok h
  have hknown := Resolution.batch_known (Document.flatten_objects hobjects) hcollect
  have hparents : ∀ d ∈ documents,
      ((interfaces.find? (Document.id d)).map (·.parents)).getD [] =
        (Document.extended d).map Document.entryId := by
    intro d hd
    obtain ⟨declaration, hdecl, hfind⟩ := readDeclarations_reads hread (hknown d hd).2
    obtain ⟨hsound, hhas⟩ := Interface.buildAll_sound hbuild
    have hi : interfaces.has (Document.id d) = true := by
      rw [hhas, Directory.has, hfind]
      rfl
    obtain ⟨interface, hinterface⟩ := Option.isSome_iff_exists.mp hi
    obtain ⟨-, ⟨declaration', hfind', hparents⟩, -⟩ := hsound _ _ hinterface
    rw [hfind] at hfind'
    obtain rfl := Option.some.inj hfind'
    obtain ⟨contents, -, hdecl⟩ := bind_eq_ok.mp hdecl
    obtain ⟨parents, hids, hdecl⟩ := bind_eq_ok.mp hdecl
    cases hdecl
    rw [hinterface, Document.map_entryId hids]
    exact hparents
  have hids : documents.filterMap (Json.stringField? "@id") = documents.map Document.id := by
    rw [← List.filterMap_eq_map]
    exact List.filterMap_congr fun d hd => (hknown d hd).1
  unfold inheritanceLinks extensionLinks
  rw [hids, List.flatMap_map]
  refine List.flatMap_congr fun d hd => ?_
  rw [hparents d hd, List.map_map]
  rfl

end Client

/-- The planned requests are sent in order until one of them fails. -/
structure Proceeds (plan : List Request) (script : Script) (written : List Request)
    (failure : Option StoreError) : Prop where
  answered : Answered script written failure
  inOrder : written <+: plan
  complete : failure = none → written = plan

theorem Proceeds.stop {request : Request} {plan : List Request} {script : Script} {e : StoreError}
    (h : request.FailsOn script.head? e) : Proceeds (request :: plan) script [request] (some e) :=
  ⟨.failed h, List.prefix_append [request] plan, nofun⟩

theorem Proceeds.step {request : Request} {plan written : List Request} {script : Script}
    {failure : Option StoreError} (h : ∀ e, ¬ request.FailsOn script.head? e)
    (hrest : Proceeds plan script.tail written failure) :
    Proceeds (request :: plan) script (request :: written) failure :=
  ⟨.cons h hrest.answered, List.prefix_cons_inj request |>.mpr hrest.inOrder,
    fun hnone => congrArg _ (hrest.complete hnone)⟩

def settled {α : Type} (failure : Option StoreError) (a : α) : Except ClientError α :=
  match failure with
  | none => .ok a
  | some e => .error (.store e)

namespace Client

variable {c : Client Script}

theorem run_execute_script (hstore : c.store = Script.store) {statement : Statement}
    (hmark : Cypher.breaksOut statement.text = false) (session : Session Script) :
    (c.execute statement).run session =
      ((Script.count session.store.head?).mapError ClientError.store,
        ⟨session.store.tail, session.sent ++ [.execute c.graphName statement]⟩) := by
  have hcheck : checkStatement statement = .ok () := checkStatement_eq_ok.mpr hmark
  obtain ⟨script, sent⟩ := session
  unfold execute
  rw [run_bind, run_lift, hcheck]
  show ((((c.store.execute c.graphName statement.text).run script).1).mapError ClientError.store,
    Session.mk ((c.store.execute c.graphName statement.text).run script).2 _) = _
  rw [hstore]
  cases script <;> rfl

theorem run_links (hstore : c.store = Script.store) (links : List (Text × Text))
    (session : Session Script) : ∃ written failure,
      Proceeds (links.map fun (id, parent) => .execute c.graphName (.linkModel id parent))
        session.store written failure ∧
      (links.forM fun (id, parent) => discard (c.execute (.linkModel id parent)) :
        Action Script PUnit).run session =
          (settled failure ⟨⟩, ⟨session.store.drop written.length, session.sent ++ written⟩) := by
  induction links generalizing session with
  | nil =>
    refine ⟨[], none, ⟨.nil _, List.prefix_refl _, fun _ => rfl⟩, ?_⟩
    rw [List.append_nil]
    rfl
  | cons link links ih =>
    obtain ⟨id, parent⟩ := link
    have hrun : (discard (c.execute (.linkModel id parent))).run session =
        ((Script.count session.store.head?).map (fun _ => PUnit.unit) |>.mapError .store,
          ⟨session.store.tail, session.sent ++ [.execute c.graphName (.linkModel id parent)]⟩) := by
      show ((fun _ => PUnit.unit) <$> c.execute (.linkModel id parent)).run session = _
      rw [map_eq_pure_bind, run_bind,
        run_execute_script hstore (Statement.not_breaksOut _ rfl rfl)]
      cases Script.count session.store.head? <;> rfl
    show ∃ written failure, _ ∧ (discard (c.execute (.linkModel id parent)) >>= fun _ =>
      links.forM fun (id, parent) => discard (c.execute (.linkModel id parent))).run session = _
    rw [run_bind, hrun]
    cases hcount : Script.count session.store.head? with
    | error e =>
      refine ⟨[.execute c.graphName (.linkModel id parent)], some e, .stop hcount, ?_⟩
      rw [← List.drop_one]
      rfl
    | ok n =>
      obtain ⟨written, failure, hproceeds, hrest⟩ := ih ⟨session.store.tail,
        session.sent ++ [.execute c.graphName (.linkModel id parent)]⟩
      refine ⟨.execute c.graphName (.linkModel id parent) :: written, failure,
        .step (fun e he => ?_) hproceeds, hrest.trans ?_⟩
      · cases hcount.symm.trans he
      · rw [← List.drop_one, List.drop_drop, List.append_assoc, List.length_cons, Nat.add_comm]
        rfl

def writeModels {σ : Type} (c : Client σ) (documents : List Json) (links : List (Text × Text)) :
    Action σ (List Json) := do
  let results ← c.query (.createModels documents)
  let created ← ClientError.ofStore results.vertexDocuments
  links.forM fun (id, parent) => discard (c.execute (.linkModel id parent))
  return created

theorem run_query_vertices {σ α : Type} (c : Client σ) {statement : Statement}
    (hmark : Cypher.breaksOut statement.text = false) (f : List Json → Action σ α)
    (session : Session σ) :
    (do
      let results ← c.query statement
      let created ← ClientError.ofStore results.vertexDocuments
      f created : Action σ α).run session =
    ((c.vertices statement).adapt .store >>= f : Action σ α).run session := by
  have hcheck : checkStatement statement = .ok () := checkStatement_eq_ok.mpr hmark
  unfold query vertices
  rw [run_bind, run_bind, run_lift, hcheck, run_bind, run_adapt, run_bind]
  dsimp only
  rw [run_adapt]
  rcases (c.ask statement).run session with ⟨e | results, s⟩
  · rfl
  · dsimp only [Except.mapError]
    rw [run_bind, run_lift, run_lift]
    cases results.vertexDocuments <;> rfl

theorem run_writeModels (hstore : c.store = Script.store) (documents : List Json)
    (session : Session Script) : ∃ written failure created,
      written ≠ [] ∧ Proceeds (creation c.graphName documents) session.store written failure ∧
      (failure = none → (Script.results session.store.head? >>= Results.vertexDocuments) =
        .ok created) ∧
      (c.writeModels documents (extensionLinks documents)).run session =
        (settled failure created,
          ⟨session.store.drop written.length, session.sent ++ written⟩) := by
  unfold writeModels
  rw [c.run_query_vertices (Statement.not_breaksOut _ rfl rfl), run_bind, run_adapt,
    run_vertices_script hstore]
  cases hcreated : Script.results session.store.head? >>= Results.vertexDocuments with
  | error e =>
    refine ⟨[.query c.graphName (.createModels documents)], some e, [], by simp,
      .stop (Request.failsOn_query.mpr hcreated),
      fun hnone => absurd hnone (Option.some_ne_none e), ?_⟩
    rw [← List.drop_one]
    rfl
  | ok created =>
    obtain ⟨written, failure, hproceeds, hrun⟩ := run_links hstore (extensionLinks documents)
      ⟨session.store.tail, session.sent ++ [.query c.graphName (.createModels documents)]⟩
    refine ⟨.query c.graphName (.createModels documents) :: written, failure, created, by simp,
      .step (fun e he => ?_) hproceeds, fun _ => rfl, ?_⟩
    · cases hcreated.symm.trans (Request.failsOn_query.mp he)
    · dsimp only [Except.mapError]
      rw [run_bind, hrun, List.length_cons, ← List.drop_one, List.drop_drop, List.append_assoc,
        Nat.add_comm]
      cases failure <;> rfl

theorem run_createModels {σ : Type} (c : Client σ) {batch documents : List Json}
    (hflat : Document.flatten batch = .ok documents) (hne : documents ≠ []) (session : Session σ) :
    (c.createModels batch).run session =
      (c.readModels documents >>= fun interfaces =>
        c.writeModels documents (inheritanceLinks interfaces documents)).run session := by
  have hempty : ¬ documents.isEmpty = true := fun h => hne (List.isEmpty_iff.mp h)
  unfold createModels
  rw [hflat, run_bind, run_lift]
  dsimp only [Except.mapError]
  rw [if_neg hempty]
  rfl

end Client

/-- How the creation of models went: what was sent, what it ended with, which lookups came first,
what these were for, and the failure of the store that ended it, if one did. -/
structure Creates (c : Client Script) (documents : List Json) (script : Script)
    (sent : List Request) (result : Except ClientError (List Json)) (lookups : List Request)
    (parsed : Except ClientError (Directory Interface)) (failure : Option StoreError) : Prop where
  parses : (c.readModels documents).run ⟨script, []⟩ =
    (parsed, ⟨script.drop lookups.length, lookups⟩)
  looksUp : ∀ request ∈ lookups, ∃ ids, request = .query c.graphName (.modelsAmong ids)
  refused : ∀ e, parsed = .error e → sent = lookups ∧ result = .error e
  written : ∀ interfaces, parsed = .ok interfaces → ∃ written, sent = lookups ++ written ∧
    written ≠ [] ∧ written <+: creation c.graphName documents ∧
    (failure = none → written = creation c.graphName documents)
  answered : Answered script sent failure
  failed : ∀ e, failure = some e ↔ result = .error (.store e)
  ok_iff : (∃ created, result = .ok created) ↔
    sent = lookups ++ creation c.graphName documents ∧ failure = none
  returns : ∀ created, result = .ok created → ∃ rows : List Row,
    Script.results script[lookups.length]? = .ok (rows.map Except.ok) ∧
    created = rows.filterMap Row.document?

namespace Client

variable {c : Client Script} {settings : Settings}

theorem creates (hc : Client.new Script.store settings = .ok c) {batch documents : List Json}
    (hflat : Document.flatten batch = .ok documents) (hne : documents ≠ []) (script : Script) :
    ∃ lookups parsed failure, Creates c documents script
      ((c.createModels batch).run ⟨script, []⟩).2.sent
      ((c.createModels batch).run ⟨script, []⟩).1 lookups parsed failure := by
  have hreader := reader_of_new hc
  have hstore := (store_of_new hc).symm
  rw [run_createModels c hflat hne, run_bind]
  obtain ⟨lookups, failure, hanswered, hsession, hfailure⟩ :=
    heeds_readModels hreader hstore documents ⟨script, []⟩
  have hlooks := (c.logs_readModels (asksOnly_of_eq hreader)
    (P := fun r => ∃ ids, r = .query c.graphName (.modelsAmong ids)) (fun ids => ⟨ids, rfl⟩)
    documents).sent script
  rcases hparse : (c.readModels documents).run ⟨script, []⟩ with ⟨parsed, session⟩
  rw [hparse] at hsession hfailure hlooks
  obtain rfl : session = ⟨script.drop lookups.length, lookups⟩ := hsession
  have hcreation : creation c.graphName documents ≠ [] := List.cons_ne_nil _ _
  cases parsed with
  | error e =>
    refine ⟨lookups, .error e, failure, hparse, hlooks, ?_, nofun, hanswered, ?_, ?_, nofun⟩
    · rintro e' ⟨⟩
      exact ⟨rfl, rfl⟩
    · simpa using hfailure
    · refine ⟨nofun, fun h => ?_⟩
      exact absurd (List.self_eq_append_right.mp h.1) hcreation
  | ok interfaces =>
    obtain rfl : failure = none := Option.eq_none_iff_forall_ne_some.mpr fun e he => by
      cases (hfailure e).mp he
    have hread := hparse
    rw [c.run_readModels hreader, run_adapt_eq_ok] at hread
    have hlinks := inheritanceLinks_eq (Document.objects_of_flatten hflat) hread
    obtain ⟨written, failure, created, hbegins, hproceeds, hcreated, hrun⟩ :=
      run_writeModels hstore documents ⟨script.drop lookups.length, lookups⟩
    dsimp only
    rw [hlinks, hrun]
    refine ⟨lookups, .ok interfaces, failure, hparse, hlooks, nofun, fun _ _ => ⟨written, rfl,
      hbegins, hproceeds.inOrder, hproceeds.complete⟩, hanswered.append hproceeds.answered,
      ?_, ?_, ?_⟩
    · intro e
      cases failure <;> simp [settled]
    · constructor
      · rintro ⟨created', h⟩
        cases failure with
        | none => exact ⟨congrArg _ (hproceeds.complete rfl), rfl⟩
        | some e => cases h
      · rintro ⟨-, rfl⟩
        exact ⟨created, rfl⟩
    · intro created' h
      cases failure with
      | some e => cases h
      | none =>
        cases h
        obtain ⟨results, hresults, hread⟩ := bind_eq_ok.mp (hcreated rfl)
        obtain ⟨rows, hrows, hread⟩ := bind_eq_ok.mp hread
        cases hread
        rw [List.head?_drop] at hresults
        obtain rfl := Results.rows_eq_ok.mp hrows
        exact ⟨rows, hresults, rfl⟩

/-- The plan as a reader of the statements finds it: one statement that creates a vertex for each
document, whose literals read as the documents, then one statement for each link. -/
def Spells (graph : Text) (documents : List Json) (plan : List Request) : Prop :=
  ∃ statement contents links, plan = .query graph statement :: links ∧
    Cypher.lex statement.text = some (Cypher.createTokens contents) ∧
    List.Forall₂ (fun content document => ∀ depth, Json.nesting document ≤ depth →
      Json.read depth content = some document) contents documents ∧
    List.Forall₂ (fun link request => ∃ statement, request = .execute graph statement ∧
      Cypher.lex statement.text = some (Cypher.linkTokens link.1 link.2))
      (extensionLinks documents) links

theorem spells_creation (graph : Text) {documents : List Json}
    (hw : ∀ d ∈ documents, d.WellFormed) : Spells graph documents (creation graph documents) := by
  refine ⟨_, _, _, rfl, Statement.lex_createModels documents, ?_, ?_⟩
  · rw [List.forall₂_map_left_iff, List.forall₂_same]
    exact fun d hd depth hdepth => Json.read_render (hw d hd) hdepth
  · rw [List.forall₂_map_right_iff, List.forall₂_same]
    exact fun link _ => ⟨_, rfl, Statement.lex_linkModel link.1 link.2⟩

/-- What the creation of models sends, whatever the batch and the replies of the store. A batch
without documents or with something else in it is refused at once. Otherwise the lookups of the
parse come first; only if it succeeds they are followed by the creation of all vertices and then of
all edges. A failure of the store is the end and the result, and without one the result are the
vertices in the reply. -/
theorem createModels_traces (hc : Client.new Script.store settings = .ok c) {batch : List Json}
    (hw : ∀ d ∈ batch, d.WellFormed) (script : Script) :
    (∀ e, Document.flatten batch = .error e →
      (c.createModels batch).run ⟨script, []⟩ = (.error (.ofModelError e), ⟨script, []⟩)) ∧
    (Document.flatten batch = .ok [] →
      (c.createModels batch).run ⟨script, []⟩ = (.error (.badArgument .noModels), ⟨script, []⟩)) ∧
    ∀ documents, Document.flatten batch = .ok documents → documents ≠ [] →
      Spells c.graphName documents (creation c.graphName documents) ∧
      ∃ lookups parsed failure, Creates c documents script
        ((c.createModels batch).run ⟨script, []⟩).2.sent
        ((c.createModels batch).run ⟨script, []⟩).1 lookups parsed failure := by
  refine ⟨fun e hflat => ?_, fun hflat => ?_, fun documents hflat hne => ⟨?_, ?_⟩⟩
  · rw [createModels, hflat]
    rfl
  · rw [createModels, hflat]
    rfl
  · exact spells_creation _ (Document.wellFormed_of_flatten hw hflat)
  · exact creates hc hflat hne script

/-- Replies to the lookup of the model of spaces and to the creation of the model of rooms. No edge
is affected, which is no failure. -/
def roomReplies : Script := [Call.modelReply spaceModel, Call.modelReply roomModel, .affected 0]

theorem room_is_created_last :
    ∃ lookups, ((Call.scripted.createModels [roomModel]).run ⟨roomReplies, []⟩).2.sent =
        lookups ++ creation Call.scripted.graphName [roomModel] ∧
      (∀ request ∈ lookups, ∃ ids,
        request = .query Call.scripted.graphName (.modelsAmong ids)) ∧
      extensionLinks [roomModel] =
        ([("dtmi:example:Room;1", "dtmi:example:Space;1")] : List (Text × Text)) := by
  have hc : Client.new Script.store .default = .ok Call.scripted := dif_pos _
  have hw : ∀ d ∈ [roomModel], d.WellFormed := by decide
  obtain ⟨-, -, hcreates⟩ := createModels_traces hc hw roomReplies
  obtain ⟨-, lookups, parsed, failure, h⟩ := hcreates [roomModel] rfl (List.cons_ne_nil _ _)
  have hok : ((Call.scripted.createModels [roomModel]).run ⟨roomReplies, []⟩).1 =
      .ok [roomModel] := by decide +kernel
  exact ⟨lookups, (h.ok_iff.mp ⟨_, hok⟩).1, h.looksUp, by decide +kernel⟩

end Client
end TwinGraph
