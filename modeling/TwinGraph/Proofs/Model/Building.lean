import TwinGraph.Proofs.Model.Flattening
import Mathlib.Data.List.Nodup

/-! Building interfaces in the order of visits comes to the same as flattening each of them. What
is built stays built, and the path of waiting interfaces leads to a cycle as soon as one comes
again, so the depth never runs out before a cycle is met. -/
namespace TwinGraph.Interface

open Outcome Relation

def visit (declared : Directory Declaration) (depth : Nat) (path : List Text) (id : Text) :
    Directory Content × Directory Interface → Text →
      Except ModelError (Directory Content × Directory Interface)
  | (contents, built), parent => do
    let built ← build declared depth (id :: path) parent built
    let inherited := ((built.find? parent).map (·.contents.entries)).getD []
    return (← inherit id contents inherited, built)

def complete (declared : Directory Declaration) (depth : Nat) (path : List Text) (id : Text)
    (d : Declaration) (built : Directory Interface) : Except ModelError (Directory Interface) := do
  let (contents, built) ← d.parents.foldlM (visit declared depth path id) (Directory.empty, built)
  let contents ← declare id contents d.contents
  return built.insert id ⟨id, d.parents, contents⟩

theorem build_succ (declared : Directory Declaration) (depth : Nat) (path : List Text) (id : Text)
    (built : Directory Interface) : build declared (depth + 1) path id built =
      if built.has id then .ok built
      else if path.contains id then .error (.extendsCycle id)
      else
        match declared.find? id with
        | none => .error (.unresolved [id])
        | some d => complete declared depth path id d built := rfl

variable {declared : Directory Declaration}

/-- Every interface that is built is the flattened one. -/
def Sound (declared : Directory Declaration) (built : Directory Interface) : Prop :=
  ∀ i interface, built.find? i = some interface → interface.id = i ∧
    (∃ d, declared.find? i = some d ∧ interface.parents = d.parents) ∧
    Flattens declared i interface.contents

def Within (built built' : Directory Interface) : Prop :=
  ∀ i interface, built.find? i = some interface → built'.find? i = some interface

theorem Within.trans {a b c : Directory Interface} (h : Within a b) (k : Within b c) :
    Within a c := fun i interface hi => k i interface (h i interface hi)

theorem Within.has {a b : Directory Interface} (h : Within a b) {i : Text} (hi : a.has i = true) :
    b.has i = true := by
  obtain ⟨interface, hf⟩ := Option.isSome_iff_exists.mp hi
  exact Option.isSome_iff_exists.mpr ⟨interface, h i interface hf⟩

theorem Sound.empty : Sound declared Directory.empty := by
  intro i interface h
  simp at h

def contentsOf (built : Directory Interface) (i : Text) : Directory Content :=
  ((built.find? i).map (·.contents)).getD Directory.empty

theorem entries_contentsOf (built : Directory Interface) (i : Text) :
    ((built.find? i).map (·.contents.entries)).getD [] = (contentsOf built i).entries := by
  unfold contentsOf
  cases built.find? i <;> rfl

theorem Within.contentsOf_eq {a b : Directory Interface} (h : Within a b) {i : Text}
    (hi : a.has i = true) : contentsOf a i = contentsOf b i := by
  obtain ⟨interface, hf⟩ := Option.isSome_iff_exists.mp hi
  unfold contentsOf
  rw [hf, h i interface hf]

theorem Sound.flattens {built : Directory Interface} (h : Sound declared built) {i : Text}
    (hi : built.has i = true) : Flattens declared i (contentsOf built i) := by
  obtain ⟨interface, hf⟩ := Option.isSome_iff_exists.mp hi
  unfold contentsOf
  rw [hf]
  exact (h i interface hf).2.2

theorem visit_eq_ok {depth : Nat} {path : List Text} {id parent : Text}
    {contents contents' : Directory Content} {built built' : Directory Interface} :
    visit declared depth path id (contents, built) parent = .ok (contents', built') ↔
      build declared depth (id :: path) parent built = .ok built' ∧
        inherit id contents (contentsOf built' parent).entries = .ok contents' := by
  unfold visit
  rw [bind_eq_ok]
  constructor
  · rintro ⟨next, hb, h⟩
    obtain ⟨inherited, hi, h⟩ := bind_eq_ok.mp h
    rw [pure_eq_ok, Prod.mk.injEq] at h
    obtain ⟨rfl, rfl⟩ := h
    exact ⟨hb, entries_contentsOf next parent ▸ hi⟩
  · rintro ⟨hb, hi⟩
    refine ⟨built', hb, bind_eq_ok.mpr ⟨contents', ?_, rfl⟩⟩
    rw [entries_contentsOf]
    exact hi

/-- What building one interface does, from a directory of flattened interfaces. -/
def Builds (declared : Directory Declaration) (built built' : Directory Interface) (i : Text) :
    Prop :=
  Sound declared built' ∧ Within built built' ∧ built'.has i = true

theorem visitAll_sound {depth : Nat} {path parents : List Text} {id : Text}
    {contents contents' : Directory Content} {built built' : Directory Interface}
    (hbuild : ∀ parent b b', Sound declared b →
      build declared depth (id :: path) parent b = .ok b' → Builds declared b b' parent)
    (hs : Sound declared built)
    (h : parents.foldlM (visit declared depth path id) (contents, built) = .ok (contents', built')) :
    Sound declared built' ∧ Within built built' ∧ (∀ parent ∈ parents, built'.has parent = true) ∧
      inheritAll id (contentsOf built') contents parents = .ok contents' := by
  induction parents generalizing contents built with
  | nil =>
    rw [List.foldlM_nil, pure_eq_ok, Prod.mk.injEq] at h
    obtain ⟨rfl, rfl⟩ := h
    exact ⟨hs, fun _ _ hi => hi, by simp, rfl⟩
  | cons parent parents ih =>
    rw [List.foldlM_cons] at h
    obtain ⟨⟨next, built₁⟩, hvisit, h⟩ := bind_eq_ok.mp h
    obtain ⟨hb, hinherit⟩ := visit_eq_ok.mp hvisit
    obtain ⟨hs₁, hsub₁, hhas⟩ := hbuild parent built built₁ hs hb
    obtain ⟨hs', hsub, hall, hrest⟩ := ih hs₁ h
    refine ⟨hs', hsub₁.trans hsub, List.forall_mem_cons.mpr ⟨hsub.has hhas, hall⟩, ?_⟩
    unfold inheritAll
    rw [List.foldlM_cons]
    refine bind_eq_ok.mpr ⟨next, ?_, hrest⟩
    rw [← hsub.contentsOf_eq hhas]
    exact hinherit

/-- Building keeps what is built and adds flattened interfaces only, the given one among them. -/
theorem build_sound {depth : Nat} {path : List Text} {id : Text}
    {built built' : Directory Interface} (hs : Sound declared built)
    (h : build declared depth path id built = .ok built') : Builds declared built built' id := by
  induction depth generalizing path id built built' with
  | zero => simp [build] at h
  | succ depth ih =>
    rw [build_succ] at h
    split at h
    · next hhas =>
      cases h
      exact ⟨hs, fun _ _ hi => hi, hhas⟩
    · next hnew =>
      split at h
      · cases h
      · split at h
        · cases h
        · next d hd =>
          obtain ⟨⟨inherited, visited⟩, hvisit, h⟩ := bind_eq_ok.mp h
          obtain ⟨contents, hown, h⟩ := bind_eq_ok.mp h
          obtain rfl := pure_eq_ok.mp h
          obtain ⟨hs', hsub, hall, hin⟩ := visitAll_sound (fun _ _ _ hb hok => ih hb hok) hs hvisit
          have hflat : Flattens declared id contents :=
            .intro (contentsOf visited) hd (fun parent hp => hs'.flattens (hall parent hp)) hin hown
          refine ⟨?_, ?_, by simp [Directory.has]⟩
          · intro i interface hi
            rw [Directory.find?_insert] at hi
            split at hi
            · next hid =>
              subst hid
              obtain rfl := Option.some.inj hi
              exact ⟨rfl, ⟨d, hd, rfl⟩, hflat⟩
            · exact hs' i interface hi
          · intro i interface hi
            rw [Directory.find?_insert]
            split
            · next hid =>
              subst hid
              rw [Directory.has, hi] at hnew
              simp at hnew
            · exact hsub i interface hi

/-- The path of waiting interfaces, all of which lead to the one that is visited, and enough
depth for the declarations that are not on it. -/
structure Waiting (declared : Directory Declaration) (depth : Nat) (path : List Text) (id : Text) :
    Prop where
  nodup : path.Nodup
  known : ∀ i ∈ path, declared.has i = true
  leads : ∀ i ∈ path, Ancestor declared i id
  room : declared.entries.length < depth + path.length

theorem Waiting.start (id : Text) : Waiting declared (declared.entries.length + 1) [] id where
  nodup := List.nodup_nil
  known := by simp
  leads := by simp
  room := by simp

theorem Waiting.next {depth : Nat} {path : List Text} {id parent : Text}
    (h : Waiting declared (depth + 1) path id) (hnew : id ∉ path)
    (hp : Extends declared id parent) : Waiting declared depth (id :: path) parent where
  nodup := List.nodup_cons.mpr ⟨hnew, h.nodup⟩
  known := by
    obtain ⟨d, hd, -⟩ := hp
    refine List.forall_mem_cons.mpr ⟨?_, h.known⟩
    rw [Directory.has, hd]
    rfl
  leads := List.forall_mem_cons.mpr ⟨.single hp, fun i hi => (h.leads i hi).tail hp⟩
  room := by
    have hroom := h.room
    rw [List.length_cons]
    omega

theorem Waiting.length_le {depth : Nat} {path : List Text} {id : Text}
    (h : Waiting declared depth path id) : path.length ≤ declared.entries.length := by
  have hsub : path ⊆ declared.names := fun i hi => Directory.mem_names.mpr (h.known i hi)
  have hlen : path.length ≤ declared.names.length := (h.nodup.subperm hsub).length_le
  rwa [Directory.names, List.length_map] at hlen

theorem Waiting.depth_pos {path : List Text} {id : Text} : ¬ Waiting declared 0 path id := by
  intro h
  have hlen := h.length_le
  have hroom := h.room
  omega

theorem visitAll_ok {depth : Nat} {path parents : List Text} {id : Text}
    {parts : Text → Directory Content} {contents result : Directory Content}
    {built : Directory Interface}
    (hbuild : ∀ parent ∈ parents, ∀ b, Sound declared b →
      ∃ b', build declared depth (id :: path) parent b = .ok b')
    (hparts : ∀ parent ∈ parents, Flattens declared parent (parts parent))
    (hs : Sound declared built) (h : inheritAll id parts contents parents = .ok result) :
    ∃ built', parents.foldlM (visit declared depth path id) (contents, built)
      = .ok (result, built') := by
  induction parents generalizing contents built with
  | nil =>
    obtain rfl := pure_eq_ok.mp h
    exact ⟨built, rfl⟩
  | cons parent parents ih =>
    rw [List.forall_mem_cons] at hbuild hparts
    unfold inheritAll at h
    rw [List.foldlM_cons] at h
    obtain ⟨next, hnext, h⟩ := bind_eq_ok.mp h
    obtain ⟨built₁, hb⟩ := hbuild.1 built hs
    obtain ⟨hs₁, -, hhas⟩ := build_sound hs hb
    have hvisit : visit declared depth path id (contents, built) parent = .ok (next, built₁) := by
      refine visit_eq_ok.mpr ⟨hb, ?_⟩
      rw [(hs₁.flattens hhas).unique hparts.1]
      exact hnext
    obtain ⟨built', hrest⟩ := ih hbuild.2 hparts.2 hs₁ h
    refine ⟨built', ?_⟩
    rw [List.foldlM_cons]
    exact bind_eq_ok.mpr ⟨(next, built₁), hvisit, hrest⟩

theorem build_ok {id : Text} {contents : Directory Content} (h : Flattens declared id contents)
    {depth : Nat} {path : List Text} {built : Directory Interface}
    (hwait : Waiting declared depth path id) (hs : Sound declared built) :
    ∃ built', build declared depth path id built = .ok built' := by
  induction h generalizing depth path built with
  | @intro id d inherited contents parts hd habove hin hown ih =>
    cases depth with
    | zero => exact absurd hwait Waiting.depth_pos
    | succ depth =>
      have hflat : Flattens declared id contents := .intro parts hd habove hin hown
      have hnew : id ∉ path := fun hm => hflat.not_ancestor_self (hwait.leads id hm)
      rw [build_succ]
      split
      · exact ⟨built, rfl⟩
      · rw [if_neg (by simpa using hnew), hd]
        obtain ⟨visited, hvisit⟩ := visitAll_ok
          (fun parent hp b hb => ih parent hp (hwait.next hnew ⟨d, hd, hp⟩) hb) habove hs hin
        exact ⟨visited.insert id ⟨id, d.parents, contents⟩,
          bind_eq_ok.mpr ⟨(inherited, visited), hvisit, bind_eq_ok.mpr ⟨contents, hown, rfl⟩⟩⟩

theorem build_cycle {depth : Nat} {path : List Text} {id j : Text} {built : Directory Interface}
    (hwait : Waiting declared depth path id)
    (h : build declared depth path id built = .error (.extendsCycle j)) :
    ∃ i, Ancestor declared i i := by
  induction depth generalizing path id built with
  | zero => exact absurd hwait Waiting.depth_pos
  | succ depth ih =>
    rw [build_succ] at h
    split at h
    · cases h
    · split at h
      · next hm => exact ⟨id, hwait.leads id (by simpa using hm)⟩
      · next hnew =>
        split at h
        · cases h
        · next d hd =>
          rcases bind_eq_error.mp h with h | ⟨visited, -, h⟩
          · obtain ⟨parent, hp, ⟨contents, built⟩, h⟩ := foldlM_eq_error h
            rcases bind_eq_error.mp h with h | ⟨built, -, h⟩
            · exact ih (hwait.next (by simpa using hnew) ⟨d, hd, hp⟩) h
            · rcases bind_eq_error.mp h with h | ⟨contents, -, h⟩
              · obtain ⟨name, hname⟩ := inherit_eq_error h
                cases hname
              · cases h
          · rcases bind_eq_error.mp h with h | ⟨contents, -, h⟩
            · obtain ⟨name, hname⟩ := declare_eq_error h
              cases hname
            · cases h

theorem buildList_sound {ids : List Text} {built built' : Directory Interface}
    (hs : Sound declared built)
    (h : ids.foldlM (fun built id => build declared (declared.entries.length + 1) [] id built) built
      = .ok built') :
    Sound declared built' ∧ Within built built' ∧ ∀ i ∈ ids, built'.has i = true := by
  induction ids generalizing built with
  | nil =>
    obtain rfl := pure_eq_ok.mp h
    exact ⟨hs, fun _ _ hi => hi, by simp⟩
  | cons id ids ih =>
    rw [List.foldlM_cons] at h
    obtain ⟨next, hnext, h⟩ := bind_eq_ok.mp h
    obtain ⟨hs₁, hsub₁, hhas⟩ := build_sound hs hnext
    obtain ⟨hs', hsub, hall⟩ := ih hs₁ h
    exact ⟨hs', hsub₁.trans hsub, List.forall_mem_cons.mpr ⟨hsub.has hhas, hall⟩⟩

theorem buildList_ok {ids : List Text} {built : Directory Interface} (hs : Sound declared built)
    (h : ∀ i ∈ ids, ∃ contents, Flattens declared i contents) :
    ∃ built', ids.foldlM
      (fun built id => build declared (declared.entries.length + 1) [] id built) built
      = .ok built' := by
  induction ids generalizing built with
  | nil => exact ⟨built, rfl⟩
  | cons id ids ih =>
    rw [List.forall_mem_cons] at h
    obtain ⟨contents, hflat⟩ := h.1
    obtain ⟨next, hnext⟩ := build_ok hflat (Waiting.start id) hs
    obtain ⟨built', hrest⟩ := ih (build_sound hs hnext).1 h.2
    refine ⟨built', ?_⟩
    rw [List.foldlM_cons]
    exact bind_eq_ok.mpr ⟨next, hnext, hrest⟩

theorem buildAll_ok_iff : (∃ interfaces, buildAll declared = .ok interfaces) ↔
    ∀ i, declared.has i = true → ∃ contents, Flattens declared i contents := by
  constructor
  · rintro ⟨interfaces, h⟩ i hi
    obtain ⟨hs, -, hall⟩ := buildList_sound Sound.empty h
    exact ⟨_, hs.flattens (hall i (Directory.mem_names.mpr hi))⟩
  · intro h
    exact buildList_ok Sound.empty fun i hi => h i (Directory.mem_names.mp hi)

/-- The result has one interface for each declaration, the flattened one. -/
theorem buildAll_sound {interfaces : Directory Interface}
    (h : buildAll declared = .ok interfaces) :
    Sound declared interfaces ∧ ∀ i, interfaces.has i = declared.has i := by
  obtain ⟨hs, -, hall⟩ := buildList_sound Sound.empty h
  refine ⟨hs, fun i => Bool.eq_iff_iff.mpr ⟨fun hi => ?_, fun hi => ?_⟩⟩
  · obtain ⟨d, hd⟩ := (hs.flattens hi).declaration
    rw [Directory.has, hd]
    rfl
  · exact hall i (Directory.mem_names.mpr hi)

theorem buildAll_cycle {j : Text} (h : buildAll declared = .error (.extendsCycle j)) :
    ∃ i, Ancestor declared i i := by
  obtain ⟨id, -, built, h⟩ := foldlM_eq_error h
  exact build_cycle (Waiting.start id) h

end TwinGraph.Interface
