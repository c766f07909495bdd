import TwinGraph.Model.Resolver
import TwinGraph.Proofs.Model.Building
import TwinGraph.Proofs.Model.Collecting

/-! Flattening is exact. Documents that refer to each other only, and whose contents can all be
read, give interfaces when nobody extends itself and the declarations go together; then each
interface has what it and its ancestors declare. -/
namespace TwinGraph

open Outcome Relation

variable {σ : Type}

theorem readInterfaces_run {rounds : Nat} {resolver : Resolver σ} {documents : List Json} {s s' : σ}
    {known : Directory Json} {declared : Directory Declaration}
    (hcollect : (Resolution.collect rounds resolver documents).run s = (.ok known, s'))
    (hread : readDeclarations known = .ok declared) :
    (readInterfaces rounds resolver documents).run s = (Interface.buildAll declared, s') := by
  unfold readInterfaces
  rw [run_bind, hcollect]
  simp only [run_bind, run_lift, hread]

theorem declared_references {known : Directory Json} {declared : Directory Declaration}
    (hread : readDeclarations known = .ok declared) (hmissing : Resolution.missing known = .ok [])
    {i : Text} {d : Declaration} (hd : declared.find? i = some d) :
    ∃ document refs, known.find? i = some document ∧ Resolution.references document = .ok refs ∧
      d.parents ⊆ refs ∧
      ∀ c ∈ d.contents, ∀ component, c.kind = .component component → component ∈ refs := by
  obtain ⟨document, hdoc, hdecl⟩ := (readDeclarations_find? hread).mp hd
  obtain ⟨refs, hrefs⟩ := (Resolution.missing_eq_ok hmissing).1 i document hdoc
  obtain ⟨parents, hparents, rfl, -⟩ := Resolution.references_eq_ok.mp hrefs
  obtain ⟨contents, hcontents, hdecl⟩ := bind_eq_ok.mp hdecl
  obtain ⟨parents', hparents', hdecl⟩ := bind_eq_ok.mp hdecl
  obtain rfl := pure_eq_ok.mp hdecl
  rw [hparents] at hparents'
  obtain rfl := Except.ok.inj hparents'
  refine ⟨document, _, hdoc, hrefs, List.subset_append_left _ _, ?_⟩
  intro c hc component hkind
  obtain ⟨entry, he, hentry⟩ := mem_of_mapM hcontents c hc
  refine List.mem_append_right _ ?_
  obtain ⟨htype, hschema⟩ := Content.read_component hentry hkind
  exact List.mem_filterMap.mpr ⟨entry, List.mem_filter.mpr ⟨he, htype⟩, hschema⟩

/-- What documents declare when they are collected from a batch and its resolver, and can be
read. They are values as any reader of documents makes them, with each name once in an object. -/
structure Gathered (rounds : Nat) (resolver : Resolver σ) (documents : List Json) (s : σ)
    (known : Directory Json) (declared : Directory Declaration) : Prop where
  collected : ∃ s', (Resolution.collect rounds resolver documents).run s = (.ok known, s')
  wellFormed : ∀ id document, known.find? id = some document → document.WellFormed
  readable : readDeclarations known = .ok declared

namespace Gathered

variable {rounds : Nat} {resolver : Resolver σ} {documents : List Json} {s : σ}
  {known : Directory Json} {declared : Directory Declaration}

theorem outcome (h : Gathered rounds resolver documents s known declared) :
    ((readInterfaces rounds resolver documents).run s).1 = Interface.buildAll declared := by
  obtain ⟨s', hcollect⟩ := h.collected
  rw [readInterfaces_run hcollect h.readable]

theorem properContents (h : Gathered rounds resolver documents s known declared) :
    Interface.ProperContents declared := by
  rintro i name c ⟨d, hd, hc, -⟩
  exact readDeclarations_wellFormed h.wellFormed h.readable hd c hc

theorem refers (h : Gathered rounds resolver documents s known declared) {i : Text}
    {d : Declaration} (hd : declared.find? i = some d) :
    (∀ parent ∈ d.parents, declared.has parent = true) ∧
      ∀ c ∈ d.contents, ∀ component, c.kind = .component component →
        declared.has component = true := by
  obtain ⟨s', hcollect⟩ := h.collected
  have hmissing := Resolution.collect_missing hcollect
  obtain ⟨document, refs, hdoc, hrefs, hparents, hcomponents⟩ :=
    declared_references h.readable hmissing hd
  have hknown : ∀ r ∈ refs, declared.has r = true := by
    intro r hr
    rw [readDeclarations_has h.readable]
    exact Resolution.missing_eq_nil hmissing hdoc hrefs hr
  exact ⟨fun parent hp => hknown parent (hparents hp),
    fun c hc component hkind => hknown component (hcomponents c hc component hkind)⟩

theorem closed (h : Gathered rounds resolver documents s known declared) :
    Interface.Closed declared := by
  rintro i parent ⟨d, hd, hp⟩
  exact (h.refers hd).1 parent hp

theorem builds_iff (h : Gathered rounds resolver documents s known declared) :
    (∃ interfaces, Interface.buildAll declared = .ok interfaces) ↔
      Interface.Acyclic declared ∧ ∀ i, declared.has i = true → Interface.Consistent declared i := by
  rw [Interface.buildAll_ok_iff]
  constructor
  · intro hall
    constructor
    · intro i hi
      obtain ⟨parent, ⟨d, hd, -⟩, -⟩ := TransGen.head'_iff.mp hi
      obtain ⟨contents, hflat⟩ := hall i (by rw [Directory.has, hd]; rfl)
      exact hflat.not_ancestor_self hi
    · intro i hi
      obtain ⟨contents, hflat⟩ := hall i hi
      exact (hflat.exact h.properContents).2
  · rintro ⟨hacyclic, hcons⟩ i hi
    exact Interface.flattens_of_consistent h.properContents hacyclic h.closed hcons hi

end Gathered

/-- Reading succeeds exactly when the declarations have no cycle and are consistent, and gives each
known interface the entries that it and its ancestors declare. A cycle is always an error, and
reported as one only if there is one. -/
theorem interfaces_flatten_exactly {rounds : Nat} {resolver : Resolver σ} {documents : List Json}
    {s : σ} {known : Directory Json} {declared : Directory Declaration}
    (h : Gathered rounds resolver documents s known declared) :
    ((∃ interfaces, ((readInterfaces rounds resolver documents).run s).1 = .ok interfaces) ↔
      Interface.Acyclic declared ∧
        ∀ i, declared.has i = true → Interface.Consistent declared i) ∧
    (∀ interfaces, ((readInterfaces rounds resolver documents).run s).1 = .ok interfaces →
      (∀ i, interfaces.has i = known.has i) ∧
      ∀ i interface, interfaces.find? i = some interface →
        interface.id = i ∧
        (∀ parent ∈ interface.parents, interfaces.has parent = true) ∧
        (∀ name c component, interface.contents.find? name = some c →
          c.kind = .component component → interfaces.has component = true) ∧
        Interface.Exact declared i interface.contents) ∧
    (¬ Interface.Acyclic declared →
      ∃ e, ((readInterfaces rounds resolver documents).run s).1 = .error e) ∧
    ∀ i, ((readInterfaces rounds resolver documents).run s).1 = .error (.extendsCycle i) →
      ¬ Interface.Acyclic declared := by
  rw [h.outcome]
  refine ⟨h.builds_iff, ?_, ?_, ?_⟩
  · intro interfaces hok
    obtain ⟨hsound, hhas⟩ := Interface.buildAll_sound hok
    refine ⟨fun i => (hhas i).trans (readDeclarations_has h.readable i), ?_⟩
    intro i interface hi
    obtain ⟨hid, ⟨d, hd, hparents⟩, hflat⟩ := hsound i interface hi
    have hexact := (hflat.exact h.properContents).1
    refine ⟨hid, fun parent hp => ?_, fun name c component hc hkind => ?_, hexact⟩
    · rw [hhas]
      exact (h.refers hd).1 parent (hparents ▸ hp)
    · obtain ⟨a, -, d', hd', hc', -⟩ := hexact.declares name c hc
      rw [hhas]
      exact (h.refers hd').2 c hc' component hkind
  · intro hcycle
    cases hbuild : Interface.buildAll declared with
    | ok interfaces => exact absurd (h.builds_iff.mp ⟨interfaces, hbuild⟩).1 hcycle
    | error e => exact ⟨e, rfl⟩
  · intro i herror hacyclic
    obtain ⟨j, hj⟩ := Interface.buildAll_cycle herror
    exact hacyclic j hj

def spaceModel : Json :=
  .object [("@id", .string "dtmi:example:Space;1"), ("@type", .string "Interface"),
    ("contents", .array [.object [("@type", .string "Property"), ("name", .string "area"),
      ("schema", .string "double")]])]

def roomModel : Json :=
  .object [("@id", .string "dtmi:example:Room;1"), ("@type", .string "Interface"),
    ("extends", .string "dtmi:example:Space;1"),
    ("contents", .array [.object [("@type", .string "Component"), ("name", .string "corner"),
      ("schema", .string "dtmi:example:Space;1")]])]

theorem room_flattens_exactly :
    ∃ known declared, Gathered 1 (Resolver.ofDocuments [spaceModel]) [roomModel] () known declared ∧
      Interface.Acyclic declared ∧
      ∃ interfaces, ((readInterfaces 1 (Resolver.ofDocuments [spaceModel]) [roomModel]).run ()).1
        = .ok interfaces ∧ interfaces.has "dtmi:example:Room;1" = true := by
  have hknown : ∀ entry ∈ ((Directory.empty.insert "dtmi:example:Room;1" roomModel).insert
      "dtmi:example:Space;1" spaceModel).entries, entry.2.WellFormed := by decide
  have h : Gathered 1 (Resolver.ofDocuments [spaceModel]) [roomModel] ()
      ((Directory.empty.insert "dtmi:example:Room;1" roomModel).insert
        "dtmi:example:Space;1" spaceModel)
      ((Directory.empty.insert "dtmi:example:Room;1"
          ⟨["dtmi:example:Space;1"], [⟨"corner", .component "dtmi:example:Space;1"⟩]⟩).insert
        "dtmi:example:Space;1" ⟨[], [⟨"area", .property (.primitive .double) false⟩]⟩) :=
    { collected := ⟨(), rfl⟩
      wellFormed := fun id document hd => hknown (id, document) (Directory.mem_entries.mpr hd)
      readable := rfl }
  exact ⟨_, _, h, ((interfaces_flatten_exactly h).1.mp ⟨_, rfl⟩).1, _, rfl, rfl⟩

end TwinGraph
