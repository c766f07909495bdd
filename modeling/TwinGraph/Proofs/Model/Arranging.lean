import TwinGraph.Proofs.Model.Asking
import TwinGraph.Proofs.Model.Exactness
import TwinGraph.Proofs.Model.Reaching

/-! The order in which a batch is handed in, and the arrays that its documents come in, make no
difference. Once a batch is entered, what is known is settled by the documents in it, and all that
follows goes by what is known. -/
namespace TwinGraph

open Outcome

variable {σ α β : Type}

def Document.opened (batch : List Json) : List Json :=
  batch.flatMap fun document => document.items?.getD [document]

theorem Document.opened_cons (document : Json) (batch : List Json) :
    opened (document :: batch) = document.items?.getD [document] ++ opened batch :=
  List.flatMap_cons

theorem Document.opened_append (batch batch' : List Json) :
    opened (batch ++ batch') = opened batch ++ opened batch' :=
  List.flatMap_append

theorem Document.opened_of_loose {documents : List Json} (h : ∀ d ∈ documents, d.items? = none) :
    opened documents = documents := by
  induction documents with
  | nil => rfl
  | cons d documents ih =>
    rw [List.forall_mem_cons] at h
    rw [opened_cons, h.1, ih h.2]
    rfl

/-- The same documents, in another order and in other arrays. -/
def Rearranges (batch batch' : List Json) : Prop :=
  (Document.opened batch).Perm (Document.opened batch')

namespace Rearranges

theorem of_perm {batch batch' : List Json} (h : batch.Perm batch') : Rearranges batch batch' :=
  h.flatMap_right _

theorem grouped (front documents back : List Json) (h : ∀ d ∈ documents, d.items? = none) :
    Rearranges (front ++ documents ++ back) (front ++ .array documents :: back) := by
  unfold Rearranges
  rw [Document.opened_append, Document.opened_append, Document.opened_of_loose h,
    Document.opened_append, Document.opened_cons, List.append_assoc]
  rfl

theorem symm {batch batch' : List Json} (h : Rearranges batch batch') : Rearranges batch' batch :=
  List.Perm.symm h

theorem trans {batch batch' batch'' : List Json} (h : Rearranges batch batch')
    (h' : Rearranges batch' batch'') : Rearranges batch batch'' :=
  List.Perm.trans h h'

end Rearranges

theorem Document.flatten_eq_ok {batch documents : List Json} :
    Document.flatten batch = .ok documents ↔
      documents = Document.opened batch ∧ ∀ d ∈ Document.opened batch, d.isObject = true := by
  induction batch generalizing documents with
  | nil =>
    refine ⟨fun h => ?_, fun h => by rw [h.1]; rfl⟩
    cases h
    exact ⟨rfl, by simp [opened]⟩
  | cons document batch ih =>
    rw [opened_cons, List.forall_mem_append]
    cases document with
    | object fields =>
      unfold flatten
      rw [bind_eq_ok]
      constructor
      · rintro ⟨rest, hrest, h⟩
        obtain ⟨rfl, hall⟩ := ih.mp hrest
        exact ⟨(pure_eq_ok.mp h).symm, List.forall_mem_singleton.mpr rfl, hall⟩
      · rintro ⟨rfl, -, hall⟩
        exact ⟨_, ih.mpr ⟨rfl, hall⟩, rfl⟩
    | array items =>
      unfold flatten
      split
      · next hitems =>
        rw [bind_eq_ok]
        constructor
        · rintro ⟨rest, hrest, h⟩
          obtain ⟨rfl, hall⟩ := ih.mp hrest
          exact ⟨(pure_eq_ok.mp h).symm, List.all_eq_true.mp hitems, hall⟩
        · rintro ⟨rfl, -, hall⟩
          exact ⟨_, ih.mpr ⟨rfl, hall⟩, rfl⟩
      · next hitems =>
        refine ⟨fun h => (by cases h), fun h => ?_⟩
        exact absurd (List.all_eq_true.mpr h.2.1) hitems
    | _ => simp [flatten, Json.items?, Json.isObject]

namespace Resolution

theorem Brings.perm {tops tops' : List Json} {known : Directory Json} (hb : Brings tops known)
    (h : tops.Perm tops') : Brings tops' known := by
  have hwritten : (writtenAmong tops).Perm (writtenAmong tops') := by
    rw [writtenAmong_eq_flatMap, writtenAmong_eq_flatMap]
    exact h.flatMap_right _
  refine ⟨fun d hd => hb.valid d (hwritten.mem_iff.mpr hd), ?_, fun id d => ?_⟩
  · exact (hwritten.map Document.id).nodup_iff.mp hb.distinct
  · rw [hb.find?, hwritten.mem_iff]

theorem Knows.rearranged {batch batch' : List Json} {known : Directory Json}
    (hk : Knows batch [] known) (h : Rearranges batch batch') : Knows batch' [] known := by
  obtain ⟨documents, hflat, hb⟩ := hk
  obtain ⟨rfl, hobjects⟩ := Document.flatten_eq_ok.mp hflat
  refine ⟨Document.opened batch', Document.flatten_eq_ok.mpr ⟨rfl, fun d hd => ?_⟩, ?_⟩
  · exact hobjects d ((List.Perm.mem_iff h).mpr hd)
  · rw [List.flatMap_nil, List.append_nil] at hb ⊢
    exact hb.perm h

end Resolution

/-- Both arrangements are refused before anything is asked, or reading the one is reading the
other. -/
theorem readInterfaces_arranged {batch batch' : List Json} (h : Rearranges batch batch')
    (rounds : Nat) :
    (∃ e e' : ModelError, e.InDocuments ∧ e'.InDocuments ∧
      ∀ {τ : Type} (resolver : Resolver τ) (t : τ),
        (readInterfaces rounds resolver batch).run t = (.error e, t) ∧
        (readInterfaces rounds resolver batch').run t = (.error e', t)) ∨
    ∀ {τ : Type} (resolver : Resolver τ) (t : τ),
      (readInterfaces rounds resolver batch).run t =
        (readInterfaces rounds resolver batch').run t := by
  rcases Resolution.collect_begins batch with ⟨e, he, hnone, hrun⟩ | ⟨entered, hk, hrun⟩
  · rcases Resolution.collect_begins batch' with
      ⟨e', he', -, hrun'⟩ | ⟨entered', hk', -⟩
    · refine Or.inl ⟨e, e', he, he', fun {τ} resolver t => ?_⟩
      rw [Resolution.run_readInterfaces, Resolution.run_readInterfaces, hrun, hrun']
      exact ⟨rfl, rfl⟩
    · exact absurd (hk'.rearranged h.symm) (hnone entered')
  · rcases Resolution.collect_begins batch' with
      ⟨-, -, hnone', -⟩ | ⟨entered', hk', hrun'⟩
    · exact absurd (hk.rearranged h) (hnone' entered)
    · obtain rfl := (hk.rearranged h).unique hk'
      refine Or.inr fun {τ} resolver t => ?_
      rw [Resolution.run_readInterfaces, Resolution.run_readInterfaces, hrun, hrun']

/-- What the resolver answers depends on nothing but the ids that it is asked for. -/
def Resolver.AnswersByIds (resolver : Resolver σ) : Prop :=
  ∀ ids s t, ((resolver ids).run s).1 = ((resolver ids).run t).1

/-- What comes out and what was recorded do not depend on the state in the beginning. -/
def Repeats (x : ExceptT ModelError (StateM (σ × List Exchange)) α) : Prop :=
  ∀ s t record, ∃ outcome record' s' t', x.run (s, record) = (outcome, s', record') ∧
    x.run (t, record) = (outcome, t', record')

namespace Repeats

theorem lift (x : Except ModelError α) :
    Repeats (liftM x : ExceptT ModelError (StateM (σ × List Exchange)) α) :=
  fun s t record => ⟨x, record, s, t, rfl, rfl⟩

theorem bind {x : ExceptT ModelError (StateM (σ × List Exchange)) α}
    {f : α → ExceptT ModelError (StateM (σ × List Exchange)) β} (hx : Repeats x)
    (hf : ∀ a, Repeats (f a)) : Repeats (x >>= f) := by
  intro s t record
  obtain ⟨outcome, record', s', t', hs, ht⟩ := hx s t record
  rw [run_bind, run_bind, hs, ht]
  cases outcome with
  | error e => exact ⟨_, _, _, _, rfl, rfl⟩
  | ok a => exact hf a s' t' record'

theorem recorded {resolver : Resolver σ} (h : resolver.AnswersByIds) (ids : List Text) :
    Repeats (resolver.recorded ids) := by
  intro s t record
  rw [Resolution.run_recorded, Resolution.run_recorded, h ids s t]
  exact ⟨_, _, _, _, rfl, rfl⟩

end Repeats

def Reads (rounds : Nat) (resolver : Resolver σ) (batch : List Json) (s : σ)
    (outcome : Except ModelError (Directory Interface)) (record : List Exchange) : Prop :=
  ∃ s', (readInterfaces rounds resolver batch).run s = (outcome, s') ∧
    (readInterfaces rounds resolver.recorded batch).run (s, []) = (outcome, s', record)

theorem exists_reads (rounds : Nat) (resolver : Resolver σ) (batch : List Json) (s : σ) :
    ∃ outcome record, Reads rounds resolver batch s outcome record := by
  unfold Reads
  simp only [Resolution.run_readInterfaces]
  rcases Resolution.collect_begins batch with ⟨e, -, -, hrun⟩ | ⟨entered, -, hrun⟩
  · rw [hrun, hrun]
    exact ⟨_, _, s, rfl, rfl⟩
  · obtain ⟨history, outcome, s', -, hplain, hrecorded⟩ :=
      Resolution.complete_recorded resolver rounds entered s []
    rw [hrun, hrun, hplain, hrecorded]
    exact ⟨_, _, s', rfl, rfl⟩

/-- With a resolver that goes by the ids alone, two arrangements of a batch are both read or both
refused. If they are read, the interfaces are the same, and so is what was asked and answered in
each round; the same holds of a failure, unless the batch is refused before anything is asked. -/
theorem readInterfaces_rearranged {batch batch' : List Json} (h : Rearranges batch batch')
    {resolver : Resolver σ} (hresolver : resolver.AnswersByIds) (rounds : Nat) (s t : σ) :
    ∃ outcome outcome' record record', Reads rounds resolver batch s outcome record ∧
      Reads rounds resolver batch' t outcome' record' ∧
      ((∃ interfaces, outcome = .ok interfaces) ↔ ∃ interfaces, outcome' = .ok interfaces) ∧
      (∀ interfaces, outcome = .ok interfaces → outcome' = .ok interfaces ∧ record' = record) ∧
      ∀ e, outcome = .error e → outcome' = .error e ∧ record' = record ∨
        record = [] ∧ record' = [] ∧ e.InDocuments ∧
          ∃ e', outcome' = .error e' ∧ e'.InDocuments := by
  obtain ⟨outcome, record, s', hplain, hrecorded⟩ := exists_reads rounds resolver batch s
  obtain ⟨outcome', record', t', hplain', hrecorded'⟩ := exists_reads rounds resolver batch' t
  refine ⟨outcome, outcome', record, record', ⟨s', hplain, hrecorded⟩, ⟨t', hplain', hrecorded'⟩,
    ?_⟩
  rcases readInterfaces_arranged h rounds with ⟨e, e', he, he', hrun⟩ | hrun
  · rw [(hrun resolver.recorded (s, [])).1] at hrecorded
    rw [(hrun resolver.recorded (t, [])).2] at hrecorded'
    cases hrecorded
    cases hrecorded'
    refine ⟨by simp, by simp, ?_⟩
    rintro _ ⟨⟩
    exact Or.inr ⟨rfl, rfl, he, e', rfl, he'⟩
  · have hrepeats : Repeats (readInterfaces rounds resolver.recorded batch') :=
      readInterfaces_of_steps Repeats.lift Repeats.bind (Repeats.recorded hresolver) rounds batch'
    obtain ⟨same, samely, _, _, hs, ht⟩ := hrepeats s t []
    rw [hrun, hs] at hrecorded
    rw [ht] at hrecorded'
    cases hrecorded
    cases hrecorded'
    exact ⟨Iff.rfl, fun _ ho => ⟨ho, rfl⟩, fun _ ho => Or.inl ⟨ho, rfl⟩⟩

def houseModel : Json :=
  .object [("@id", .string "dtmi:example:House;1"), ("@type", .string "Interface"),
    ("extends", .array [.string "dtmi:example:Room;1",
      .object [("@id", .string "dtmi:example:Hall;1"), ("@type", .string "Interface"),
        ("extends", .string "dtmi:example:Space;1")]])]

theorem house_is_read_in_any_order :
    Rearranges [houseModel, roomModel] [.array [roomModel, houseModel]] ∧
    (Resolver.ofDocuments (σ := Unit) [spaceModel]).AnswersByIds ∧
    ∃ interfaces record,
      Reads 1 (Resolver.ofDocuments [spaceModel]) [houseModel, roomModel] ()
        (.ok interfaces) record ∧
      Reads 1 (Resolver.ofDocuments [spaceModel]) [.array [roomModel, houseModel]] ()
        (.ok interfaces) record ∧
      record.map Exchange.asked = [["dtmi:example:Space;1".toList]] := by
  have hswap : [houseModel, roomModel].Perm [roomModel, houseModel] := .swap _ _ _
  have h : Rearranges [houseModel, roomModel] [.array [roomModel, houseModel]] :=
    (Rearranges.of_perm hswap).trans (Rearranges.grouped [] [roomModel, houseModel] [] (by decide))
  have hresolver : (Resolver.ofDocuments (σ := Unit) [spaceModel]).AnswersByIds :=
    fun _ _ _ => rfl
  obtain ⟨outcome, outcome', record, record', hreads, hreads', -, hok, -⟩ :=
    readInterfaces_rearranged h hresolver 1 () ()
  have hread : ∃ interfaces, outcome = .ok interfaces := by
    obtain ⟨_, hplain, -⟩ := hreads
    cases hplain
    exact ⟨_, rfl⟩
  obtain ⟨interfaces, rfl⟩ := hread
  obtain ⟨rfl, rfl⟩ := hok interfaces rfl
  refine ⟨h, hresolver, interfaces, record', hreads, hreads', ?_⟩
  obtain ⟨_, -, hrecorded⟩ := hreads
  cases hrecorded
  rfl

end TwinGraph
