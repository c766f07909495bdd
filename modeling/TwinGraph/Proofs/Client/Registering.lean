import TwinGraph.Proofs.Client.Registry
import TwinGraph.Proofs.Model.Rereading

/-! Registered models stay usable. A batch that was accepted and written is read again document by
document from the store, and each gives the interface that the batch gave. -/
namespace TwinGraph

open Outcome

variable {σ : Type}

theorem Resolution.sublist_writtenAmong {tops : List Json} (h : ∀ t ∈ tops, t.isObject = true) :
    tops.Sublist (writtenAmong tops) := by
  induction tops with
  | nil => exact List.Sublist.slnil
  | cons t tops ih =>
    rw [List.forall_mem_cons] at h
    rw [writtenAmong, if_pos h.1]
    exact (List.singleton_sublist.mpr (mem_written_self h.1)).append (ih h.2)

theorem readInterfaces_eq_ok {rounds : Nat} {resolver : Resolver σ} {documents : List Json}
    {s s' : σ} {interfaces : Directory Interface}
    (h : (readInterfaces rounds resolver documents).run s = (.ok interfaces, s')) :
    ∃ known declared, (Resolution.collect rounds resolver documents).run s = (.ok known, s') ∧
      readDeclarations known = .ok declared ∧ Interface.buildAll declared = .ok interfaces := by
  obtain ⟨known, s₁, hcollect, h⟩ := run_bind_eq_ok.mp h
  obtain ⟨declared, hread, h⟩ := run_lift_bind_eq_ok.mp h
  rw [run_lift, Prod.mk.injEq] at h
  obtain ⟨hbuild, rfl⟩ := h
  exact ⟨known, declared, hcollect, hread, hbuild⟩

namespace Client

variable {c : Client σ}

theorem createModels_eq_ok {batch created : List Json} {session session' : Session σ}
    (h : (c.createModels batch).run session = (.ok created, session')) :
    ∃ documents interfaces session₁, Document.flatten batch = .ok documents ∧
      (c.readModels documents).run session = (.ok interfaces, session₁) := by
  obtain ⟨documents, hflat, h⟩ := run_lift_bind_eq_ok.mp h
  rw [mapError_eq_ok] at hflat
  dsimp only at h
  split at h
  · obtain ⟨_, _, hthrow, -⟩ := run_bind_eq_ok.mp h
    cases hthrow
  · obtain ⟨interfaces, session₁, hread, -⟩ := run_bind_eq_ok.mp h
    exact ⟨documents, interfaces, session₁, hflat, hread⟩

end Client

namespace Store.Keeps

variable {c : Client σ} {documents : List Json} {holds : σ → Prop}

theorem run_modelDocument (h : c.store.Keeps c.graphName documents holds) {d : Json} {id : Text}
    (hd : d ∈ documents) (hid : d.stringField? "@id" = some id) {session : Session σ}
    (hs : holds session.store) :
    ∃ session', (c.modelDocument id).run session = (.ok d, session') ∧ holds session'.store := by
  obtain ⟨rows, s', hrun, hs', hperm⟩ := h.lookUp id session.store hs
  have honly : Resolver.select documents [id] = [d] := by
    refine List.perm_singleton.mp ((List.perm_ext_iff_of_nodup
      (Resolver.select_nodup h.unique [id]) (List.nodup_singleton d)).mpr fun v => ?_)
    rw [Resolver.mem_select, List.mem_singleton]
    constructor
    · rintro ⟨hv, id', hid', hfield⟩
      rw [List.mem_singleton.mp hid'] at hfield
      exact Resolution.eq_of_filterMap_nodup h.unique hv hd hfield hid
    · rintro rfl
      exact ⟨hd, id, List.mem_singleton_self id, hid⟩
  rw [honly, List.map_singleton, List.perm_singleton, List.map_eq_singleton_iff] at hperm
  obtain ⟨row, rfl, hrow⟩ := hperm
  refine ⟨⟨s', session.sent ++ [.query c.graphName (.model id)]⟩,
    Client.modelDocument_eq_ok.mpr ⟨row, ?_, hrow⟩, hs'⟩
  rw [c.run_queryFirst (Statement.not_breaksOut _ rfl rfl), Client.run_ask hrun]
  rfl

theorem registered {stored : List Json} {known : Directory Json} {before after : σ → Prop}
    {session session' : Session σ} {rounds : Nat}
    (hbefore : c.store.Keeps c.graphName stored before)
    (hafter : c.store.Keeps c.graphName (stored ++ documents) after)
    (hs : before session.store) (hflat : Document.flatten documents = .ok documents)
    (hcollect : (Resolution.collect rounds c.resolver documents).run session =
      (.ok known, session')) :
    ∃ tops, documents ⊆ tops ∧ Resolution.Registered (stored ++ documents) tops known ∧
      tops.length ≤ (stored ++ documents).length := by
  obtain ⟨more, hmore, hbrings, -⟩ :=
    Resolution.collect_brings hbefore.tells hbefore.objects hs hflat hcollect
  have hkept : documents ++ more ⊆ stored ++ documents :=
    List.append_subset.mpr ⟨List.subset_append_right _ _,
      fun v hv => List.mem_append_left _ (hmore v hv)⟩
  refine ⟨documents ++ more, List.subset_append_left _ _, ?_, ?_⟩
  · exact ⟨hbrings, Resolution.collect_missing hcollect, hafter.objects, hkept, hafter.unique⟩
  · have hobjects : ∀ t ∈ documents ++ more, t.isObject = true := fun t ht =>
      hafter.objects t (hkept ht)
    have hnodup : (documents ++ more).Nodup :=
      (hbrings.distinct.of_map _).sublist (Resolution.sublist_writtenAmong hobjects)
    exact (List.Nodup.subperm hnodup hkept).length_le

end Store.Keeps

/-- When a batch was accepted and the store answers from what it kept before together with the
documents of the batch, each of these documents gives the same interface again, provided that what
it refers to is found again and that the reusable schemas it uses are. -/
theorem registered_stays_usable {store : Store σ} {settings : Settings} {c : Client σ}
    (hc : Client.new store settings = .ok c) {stored batch documents created : List Json}
    {before after : σ → Prop} {session session' : Session σ}
    (hbefore : store.Keeps c.graphName stored before) (hs : before session.store)
    (haccept : (c.createModels batch).run session = (.ok created, session'))
    (hflat : Document.flatten batch = .ok documents)
    (hafter : store.Keeps c.graphName (stored ++ documents) after) :
    ∃ known interfaces session₁,
      (Resolution.collect (store.rounds session.store) c.resolver documents).run session =
        (.ok known, session₁) ∧
      (c.readModels documents).run session = (.ok interfaces, session₁) ∧
      ∀ d ∈ documents, Resolution.FoundAgain (stored ++ documents) known d →
        SchemasFoundAgain known d → ∀ later : Session σ, after later.store →
          ∃ interface later', interfaces.find? (Document.id d) = some interface ∧
            (c.interface (Document.id d)).run later = (.ok interface, later') ∧
            after later'.store := by
  have hreader := Client.reader_of_new hc
  obtain rfl : store = c.store := Client.store_of_new hc
  obtain ⟨documents', interfaces, session₁, hflat', hread⟩ := Client.createModels_eq_ok haccept
  rw [hflat] at hflat'
  obtain rfl := Except.ok.inj hflat'
  have hagain := hread
  rw [c.run_readModels hreader, run_adapt_eq_ok] at hagain
  obtain ⟨known, declared, hcollect, hdeclared, hbuild⟩ := readInterfaces_eq_ok hagain
  refine ⟨known, interfaces, session₁, hcollect, hread, ?_⟩
  intro d hd hfound hschemas later hlater
  have hobject := Document.objects_of_flatten hflat
  obtain ⟨tops, hsub, hregistered, hlength⟩ :=
    hbefore.registered hafter hs (Document.flatten_objects hobject) hcollect
  obtain ⟨later₁, hdocument, hlater₁⟩ := hafter.run_modelDocument
    (List.mem_append_right stored hd) (hregistered.stringField_top (hsub hd)) hlater
  have hrounds := hlength.trans (hafter.rounds later₁.store hlater₁)
  obtain ⟨again, later', interface, hrun, hlater', hfirst, hinterface⟩ :=
    readInterfaces_again hafter.tells hregistered (hsub hd) hdeclared hbuild hfound hschemas
      hlater₁ (hrounds.trans (Nat.le_succ _))
  refine ⟨interface, later', hfirst, ?_, hlater'⟩
  refine run_bind_eq_ok.mpr ⟨d, later₁, hdocument, run_bind_eq_ok.mpr ⟨again, later', ?_, ?_⟩⟩
  · rw [c.run_readModels hreader, run_adapt_eq_ok]
    exact hrun
  · rw [hinterface]
    rfl

theorem registered_room_stays_usable :
    ∃ created session, (Registry.client.createModels [spaceModel, roomModel]).run ⟨[], []⟩ =
        (.ok created, session) ∧
      ∃ interface later, (Registry.client.interface "dtmi:example:Room;1").run session =
        (.ok interface, later) := by
  have hstored : ((Registry.client.createModels [spaceModel, roomModel]).run ⟨[], []⟩).1.toOption =
        some [spaceModel, roomModel] ∧
      ((Registry.client.createModels [spaceModel, roomModel]).run ⟨[], []⟩).2.store =
        [spaceModel, roomModel] := by decide +kernel
  obtain ⟨created, session, hcreated⟩ : ∃ created session,
      (Registry.client.createModels [spaceModel, roomModel]).run ⟨[], []⟩ =
        (.ok created, session) := by
    cases hrun : (Registry.client.createModels [spaceModel, roomModel]).run ⟨[], []⟩ with
    | mk result session =>
      cases result with
      | ok created => exact ⟨created, session, rfl⟩
      | error e =>
        rw [hrun] at hstored
        cases hstored.1
  rw [hcreated] at hstored
  obtain ⟨known, interfaces, session₁, hcollect, -, hagain⟩ := registered_stays_usable
    Registry.client_new (Registry.keeps _ (by simp) (by simp)) rfl hcreated
    (Document.flatten_objects (by decide)) (Registry.keeps _ (by decide) (by decide))
  have hknown : known = (Directory.empty.insert "dtmi:example:Room;1" roomModel).insert
      "dtmi:example:Space;1" spaceModel := by
    have hrun := congrArg Prod.fst hcollect
    exact (Except.ok.inj hrun).symm
  -- no model is written inside another one, and no schema is more than the name of a primitive
  have hinline : Resolution.FoundAgain [spaceModel, roomModel] known roomModel := by
    refine fun x y _ _ => Or.inr (Or.inr fun v hv _ => ?_)
    have hnone : ∀ v ∈ [spaceModel, roomModel], Resolution.inlineIds v = [] := by decide
    rw [hnone v hv]
    exact List.not_mem_nil
  have hschemas : SchemasFoundAgain known roomModel := by
    intro x d name hd hlooks
    exfalso
    obtain ⟨-, hd⟩ := find?_reachedFrom.mp hd
    obtain ⟨entry, hentry, word, schema, hword, hkind, hschema, hlooks⟩ := hlooks
    subst hknown
    have hdouble : ∀ d ∈ [spaceModel, roomModel], ∀ entry ∈ Document.contents d,
        entry.field? "schema" = some (.string "double") ∨
          (Document.typeNames entry).find? (fun type => Content.kindWords.any (· == type)) =
            some "Component".toList := by decide
    have hmem : d ∈ [spaceModel, roomModel] := by
      rw [Directory.find?_insert, Directory.find?_insert] at hd
      split at hd
      · cases hd
        exact List.mem_cons_self
      · split at hd
        · cases hd
          exact List.mem_cons_of_mem _ List.mem_cons_self
        · cases hd
    rcases hdouble d hmem entry hentry with hprimitive | hcomponent
    · rw [hprimitive, Option.some.injEq] at hschema
      subst hschema
      cases hlooks with
      | name hother => cases hother
      | through hother => cases hother
    · rw [hword, Option.some.injEq] at hcomponent
      subst hcomponent
      rcases hkind with hkind | hkind <;> exact absurd hkind (by decide)
  obtain ⟨interface, later, -, hlater, -⟩ := hagain roomModel (by decide) hinline hschemas session
    hstored.2
  exact ⟨created, session, hcreated, interface, later, hlater⟩

/-- A model with a property of a schema that another model of the batch defines. -/
def borrowingModels : List Json :=
  [.object [("@id", .string "dtmi:example:Room;1"), ("@type", .string "Interface"),
    ("contents", .array [.object [("@type", .string "Property"), ("name", .string "sizes"),
      ("schema", .string "dtmi:example:sizes;1")]])],
   .object [("@id", .string "dtmi:example:Units;1"), ("@type", .string "Interface"),
    ("schemas", .array [.object [("@id", .string "dtmi:example:sizes;1"),
      ("@type", .string "Array"), ("elementSchema", .string "double")]])]]

/-- A model that extends one which is only written inside another model of the batch. -/
def inlineModels : List Json :=
  [.object [("@id", .string "dtmi:example:Room;1"), ("@type", .string "Interface"),
    ("extends", .string "dtmi:example:Space;1")],
   .object [("@id", .string "dtmi:example:Office;1"), ("@type", .string "Interface"),
    ("extends", .object [("@id", .string "dtmi:example:Space;1"),
      ("@type", .string "Interface")])]]

theorem registered_models_are_lost :
    Registry.Loses borrowingModels "dtmi:example:Room;1" ∧
      Registry.Loses inlineModels "dtmi:example:Room;1" :=
  ⟨Registry.loses_of_trial (by decide) (by decide) (by decide +kernel),
    Registry.loses_of_trial (by decide) (by decide) (by decide +kernel)⟩

end TwinGraph
