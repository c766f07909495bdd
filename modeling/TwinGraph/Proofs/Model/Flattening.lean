import TwinGraph.Model.Inheritance
import TwinGraph.Proofs.Model.Ancestry

/-! Flattening without the order of visits: an interface flattens to some contents when those of
the interfaces it extends, added one after another and then its own, give these contents. The
contents are determined by the declarations; they exist when the interfaces are consistent, and
they are what the interface and its ancestors declare. -/
namespace TwinGraph.Interface

open Outcome Relation

theorem inherit_eq_error {id : Text} {contents : Directory Content}
    {entries : List (Text × Content)} {e : ModelError} (h : inherit id contents entries = .error e) :
    ∃ name, e = .duplicateContent id name := by
  induction entries generalizing contents with
  | nil => cases h
  | cons entry entries ih =>
    unfold inherit at h
    split at h
    · split at h
      · exact ih h
      · cases h
        exact ⟨_, rfl⟩
    · exact ih h

theorem inherit_find? {id : Text} {contents result : Directory Content}
    {entries : List (Text × Content)} (hn : (entries.map (·.1)).Nodup)
    (h : inherit id contents entries = .ok result) :
    (∀ entry ∈ entries, result.find? entry.1 = some entry.2 ∧
      ∀ present, contents.find? entry.1 = some present → present.same entry.2 = true) ∧
      ∀ name ∉ entries.map (·.1), result.find? name = contents.find? name := by
  induction entries generalizing contents with
  | nil =>
    cases h
    exact ⟨by simp, fun _ _ => rfl⟩
  | cons entry entries ih =>
    obtain ⟨name, content⟩ := entry
    rw [List.map_cons, List.nodup_cons] at hn
    have hstep : inherit id (contents.insert name content) entries = .ok result ∧
        ∀ present, contents.find? name = some present → present.same content = true := by
      unfold inherit at h
      split at h
      · next present hp =>
        split at h
        · next hs =>
          refine ⟨h, fun other ho => ?_⟩
          rw [hp] at ho
          exact Option.some.inj ho ▸ hs
        · cases h
      · next hp => exact ⟨h, fun other ho => by rw [hp] at ho; cases ho⟩
    obtain ⟨hin, hout⟩ := ih hn.2 hstep.1
    constructor
    · intro entry hm
      rcases List.mem_cons.mp hm with rfl | hm
      · refine ⟨?_, hstep.2⟩
        rw [hout _ hn.1, Directory.find?_insert, if_pos rfl]
      · obtain ⟨hfind, hsame⟩ := hin entry hm
        refine ⟨hfind, fun present hp => hsame present ?_⟩
        have hne : name ≠ entry.1 := fun he => hn.1 (List.mem_map.mpr ⟨entry, hm, he.symm⟩)
        rw [Directory.find?_insert, if_neg hne, hp]
    · intro other ho
      rw [List.map_cons, List.mem_cons, not_or] at ho
      rw [hout other ho.2, Directory.find?_insert, if_neg (Ne.symm ho.1)]

theorem inherit_ok {id : Text} {contents : Directory Content} {entries : List (Text × Content)}
    (hn : (entries.map (·.1)).Nodup)
    (h : ∀ entry ∈ entries, ∀ present, contents.find? entry.1 = some present →
      present.same entry.2 = true) :
    ∃ result, inherit id contents entries = .ok result := by
  induction entries generalizing contents with
  | nil => exact ⟨contents, rfl⟩
  | cons entry entries ih =>
    obtain ⟨name, content⟩ := entry
    rw [List.map_cons, List.nodup_cons] at hn
    have hrest : ∃ result, inherit id (contents.insert name content) entries = .ok result := by
      refine ih hn.2 fun entry hm present hp => ?_
      have hne : name ≠ entry.1 := fun he => hn.1 (List.mem_map.mpr ⟨entry, hm, he.symm⟩)
      rw [Directory.find?_insert, if_neg hne] at hp
      exact h entry (List.mem_cons_of_mem _ hm) present hp
    unfold inherit
    split
    · next present hp =>
      rw [if_pos (h (name, content) List.mem_cons_self present hp)]
      exact hrest
    · exact hrest

theorem declare_eq_error {id : Text} {contents : Directory Content} {own : List Content}
    {e : ModelError} (h : declare id contents own = .error e) :
    ∃ name, e = .duplicateContent id name := by
  induction own generalizing contents with
  | nil => cases h
  | cons content own ih =>
    unfold declare at h
    split at h
    · cases h
      exact ⟨_, rfl⟩
    · exact ih h

/-- What an interface declares is added when it declares each name once and anew, and then
nothing that was inherited changes. -/
theorem declare_eq_ok {id : Text} {contents : Directory Content} {own : List Content}
    {result : Directory Content} (h : declare id contents own = .ok result) :
    (own.map (·.name)).Nodup ∧ (∀ c ∈ own, contents.find? c.name = none) ∧
      (∀ c ∈ own, result.find? c.name = some c) ∧
      ∀ name ∉ own.map (·.name), result.find? name = contents.find? name := by
  induction own generalizing contents with
  | nil =>
    cases h
    simp
  | cons content own ih =>
    unfold declare at h
    split at h
    · cases h
    · next hnew =>
      obtain ⟨hnodup, hfresh, hin, hout⟩ := ih h
      have hnot : content.name ∉ own.map (·.name) := by
        intro hm
        obtain ⟨c, hc, hname⟩ := List.mem_map.mp hm
        have := hfresh c hc
        rw [hname, Directory.find?_insert, if_pos rfl] at this
        cases this
      refine ⟨List.nodup_cons.mpr ⟨hnot, hnodup⟩, ?_, ?_, ?_⟩
      · intro c hc
        rcases List.mem_cons.mp hc with rfl | hc
        · exact Directory.has_eq_false.mp (by simpa using hnew)
        · have hne : content.name ≠ c.name := fun he => hnot (he ▸ List.mem_map_of_mem hc)
          have := hfresh c hc
          rwa [Directory.find?_insert, if_neg hne] at this
      · intro c hc
        rcases List.mem_cons.mp hc with rfl | hc
        · rw [hout _ hnot, Directory.find?_insert, if_pos rfl]
        · exact hin c hc
      · intro name hname
        rw [List.map_cons, List.mem_cons, not_or] at hname
        rw [hout name hname.2, Directory.find?_insert, if_neg (Ne.symm hname.1)]

theorem declare_ok {id : Text} {contents : Directory Content} {own : List Content}
    (hn : (own.map (·.name)).Nodup) (h : ∀ c ∈ own, contents.find? c.name = none) :
    ∃ result, declare id contents own = .ok result := by
  induction own generalizing contents with
  | nil => exact ⟨contents, rfl⟩
  | cons content own ih =>
    rw [List.map_cons, List.nodup_cons] at hn
    unfold declare
    rw [Directory.has_eq_false.mpr (h content List.mem_cons_self)]
    refine ih hn.2 fun c hc => ?_
    have hne : content.name ≠ c.name := fun he => hn.1 (he ▸ List.mem_map_of_mem hc)
    rw [Directory.find?_insert, if_neg hne]
    exact h c (List.mem_cons_of_mem _ hc)

def inheritAll (id : Text) (parts : Text → Directory Content) (contents : Directory Content)
    (parents : List Text) : Except ModelError (Directory Content) :=
  parents.foldlM (fun contents parent => inherit id contents (parts parent).entries) contents

theorem inherit_part {id : Text} {contents part next : Directory Content}
    (h : inherit id contents part.entries = .ok next) :
    (∀ name c, part.find? name = some c → next.find? name = some c) ∧
    ∀ name c, next.find? name = some c →
      contents.find? name = some c ∨ part.find? name = some c := by
  obtain ⟨hin, hout⟩ := inherit_find? part.names_nodup h
  have hpart : ∀ name c, part.find? name = some c → next.find? name = some c :=
    fun name c hf => (hin (name, c) (Directory.mem_entries.mpr hf)).1
  refine ⟨hpart, ?_⟩
  intro name c hf
  cases hp : part.find? name with
  | some d =>
    rw [hpart name d hp] at hf
    exact Or.inr hf
  | none =>
    rw [hout name (Directory.not_mem_names.mpr hp)] at hf
    exact Or.inl hf

theorem inherit_keeps {id : Text} {contents part next : Directory Content}
    (hc : ∀ name c, contents.find? name = some c → c.WellFormed)
    (h : inherit id contents part.entries = .ok next) {name : Text} {c : Content}
    (hf : contents.find? name = some c) : ∃ c', next.find? name = some c' ∧ c.same c' = true := by
  obtain ⟨hin, hout⟩ := inherit_find? part.names_nodup h
  cases hp : part.find? name with
  | some d =>
    obtain ⟨hnext, hsame⟩ := hin (name, d) (Directory.mem_entries.mpr hp)
    exact ⟨d, hnext, hsame c hf⟩
  | none =>
    refine ⟨c, ?_, Content.same_refl (hc name c hf)⟩
    rw [hout name (Directory.not_mem_names.mpr hp), hf]

theorem inheritAll_find? {id : Text} {parts : Text → Directory Content}
    {contents result : Directory Content} {parents : List Text}
    (hw : ∀ parent ∈ parents, ∀ name c, (parts parent).find? name = some c → c.WellFormed)
    (hc : ∀ name c, contents.find? name = some c → c.WellFormed)
    (h : inheritAll id parts contents parents = .ok result) :
    (∀ name c, contents.find? name = some c →
      ∃ c', result.find? name = some c' ∧ c.same c' = true) ∧
    (∀ parent ∈ parents, ∀ name c, (parts parent).find? name = some c →
      ∃ c', result.find? name = some c' ∧ c.same c' = true) ∧
    ∀ name c, result.find? name = some c → contents.find? name = some c ∨
      ∃ parent ∈ parents, (parts parent).find? name = some c := by
  induction parents generalizing contents with
  | nil =>
    obtain rfl := pure_eq_ok.mp h
    refine ⟨fun name c hf => ⟨c, hf, Content.same_refl (hc name c hf)⟩, by simp, ?_⟩
    exact fun name c hf => Or.inl hf
  | cons parent parents ih =>
    rw [List.forall_mem_cons] at hw
    unfold inheritAll at h
    rw [List.foldlM_cons] at h
    obtain ⟨next, hnext, h⟩ := bind_eq_ok.mp h
    obtain ⟨hpart, hback⟩ := inherit_part hnext
    have hwnext : ∀ name c, next.find? name = some c → c.WellFormed := fun name c hf =>
      (hback name c hf).elim (hc name c) (hw.1 name c)
    obtain ⟨hold, hnew, hfrom⟩ := ih hw.2 hwnext h
    refine ⟨?_, ?_, ?_⟩
    · intro name c hf
      obtain ⟨d, hd, hcd⟩ := inherit_keeps hc hnext hf
      obtain ⟨c', hc', hdc'⟩ := hold name d hd
      exact ⟨c', hc', Content.same_trans hcd hdc'⟩
    · intro p hp name c hf
      rcases List.mem_cons.mp hp with rfl | hp
      · exact hold name c (hpart name c hf)
      · exact hnew p hp name c hf
    · intro name c hf
      rcases hfrom name c hf with hf | ⟨p, hp, hf⟩
      · rcases hback name c hf with hf | hf
        · exact Or.inl hf
        · exact Or.inr ⟨parent, List.mem_cons_self, hf⟩
      · exact Or.inr ⟨p, List.mem_cons_of_mem _ hp, hf⟩

theorem inheritAll_ok {id : Text} {parts : Text → Directory Content}
    {contents : Directory Content} {parents : List Text}
    (hstart : ∀ parent ∈ parents, ∀ name c c', contents.find? name = some c →
      (parts parent).find? name = some c' → c.same c' = true)
    (hagree : ∀ p ∈ parents, ∀ q ∈ parents, ∀ name c c', (parts p).find? name = some c →
      (parts q).find? name = some c' → c.same c' = true) :
    ∃ result, inheritAll id parts contents parents = .ok result := by
  induction parents generalizing contents with
  | nil => exact ⟨contents, rfl⟩
  | cons parent parents ih =>
    obtain ⟨next, hnext⟩ : ∃ next, inherit id contents (parts parent).entries = .ok next := by
      refine inherit_ok (parts parent).names_nodup fun entry hm present hp => ?_
      exact hstart parent List.mem_cons_self entry.1 present entry.2 hp (Directory.mem_entries.mp hm)
    obtain ⟨-, hback⟩ := inherit_part hnext
    have hrest : ∃ result, inheritAll id parts next parents = .ok result := by
      refine ih (fun q hq name c c' hf hf' => ?_) fun p hp q hq =>
        hagree p (List.mem_cons_of_mem _ hp) q (List.mem_cons_of_mem _ hq)
      rcases hback name c hf with hf | hf
      · exact hstart q (List.mem_cons_of_mem _ hq) name c c' hf hf'
      · exact hagree parent List.mem_cons_self q (List.mem_cons_of_mem _ hq) name c c' hf hf'
    obtain ⟨result, hr⟩ := hrest
    refine ⟨result, ?_⟩
    unfold inheritAll
    rw [List.foldlM_cons]
    exact bind_eq_ok.mpr ⟨next, hnext, hr⟩

theorem inheritAll_congr {id : Text} {parts parts' : Text → Directory Content}
    {contents : Directory Content} {parents : List Text}
    (h : ∀ parent ∈ parents, parts parent = parts' parent) :
    inheritAll id parts contents parents = inheritAll id parts' contents parents := by
  induction parents generalizing contents with
  | nil => rfl
  | cons parent parents ih =>
    rw [List.forall_mem_cons] at h
    unfold inheritAll
    rw [List.foldlM_cons, List.foldlM_cons, h.1]
    congr 1
    funext next
    exact ih h.2

/-- The contents of an interface, built from those of the interfaces that it extends. -/
inductive Flattens (declared : Directory Declaration) : Text → Directory Content → Prop where
  | intro {id : Text} {d : Declaration} {inherited contents : Directory Content}
      (parts : Text → Directory Content) (declares : declared.find? id = some d)
      (above : ∀ parent ∈ d.parents, Flattens declared parent (parts parent))
      (inherits : inheritAll id parts Directory.empty d.parents = .ok inherited)
      (adds : declare id inherited d.contents = .ok contents) : Flattens declared id contents

variable {declared : Directory Declaration}

theorem Flattens.declaration {id : Text} {contents : Directory Content}
    (h : Flattens declared id contents) : ∃ d, declared.find? id = some d := by
  cases h with
  | intro parts hd _ _ _ => exact ⟨_, hd⟩

theorem Flattens.unique {id : Text} {contents contents' : Directory Content}
    (h : Flattens declared id contents) (h' : Flattens declared id contents') :
    contents = contents' := by
  induction h generalizing contents' with
  | @intro id d inherited contents parts hd _ hin hown ih =>
    cases h' with
    | intro parts' hd' habove' hin' hown' =>
      rw [hd] at hd'
      obtain rfl := Option.some.inj hd'
      rw [inheritAll_congr fun parent hp => ih parent hp (habove' parent hp), hin'] at hin
      obtain rfl := Except.ok.inj hin
      rw [hown] at hown'
      exact Except.ok.inj hown'

/-- Only the declarations of the interface and its ancestors count. -/
theorem Flattens.transfer {declared' : Directory Declaration} {id : Text}
    {contents : Directory Content} (h : Flattens declared id contents)
    (hsame : ∀ a, Lineage declared id a → declared'.find? a = declared.find? a) :
    Flattens declared' id contents := by
  induction h with
  | @intro id d inherited contents parts hd _ hin hown ih =>
    refine .intro parts ((hsame id .refl).trans hd) (fun parent hp => ih parent hp ?_) hin hown
    exact fun a ha => hsame a (.head ⟨d, hd, hp⟩ ha)

theorem Flattens.not_ancestor_self {id : Text} {contents : Directory Content}
    (h : Flattens declared id contents) : ¬ Ancestor declared id id := by
  induction h with
  | @intro id d inherited contents parts hd _ hin hown ih =>
    intro hcycle
    obtain ⟨parent, hp, hup⟩ := (ancestor_iff hd).mp hcycle
    exact ih parent hp (TransGen.tail'_iff.mpr ⟨id, hup, d, hd, hp⟩)

/-- The contents are entries that the interface or an ancestor declares, and every such entry is
among them. -/
structure Exact (declared : Directory Declaration) (id : Text) (contents : Directory Content) :
    Prop where
  declares : ∀ name c, contents.find? name = some c →
    ∃ a, Lineage declared id a ∧ Declares declared a name c
  complete : ∀ a name c, Lineage declared id a → Declares declared a name c →
    ∃ c', contents.find? name = some c' ∧ c.same c' = true

theorem Exact.wellFormed (hw : ProperContents declared) {id : Text} {contents : Directory Content}
    (h : Exact declared id contents) {name : Text} {c : Content}
    (hf : contents.find? name = some c) : c.WellFormed := by
  obtain ⟨a, -, ha⟩ := h.declares name c hf
  exact hw a name c ha

theorem Flattens.exact (hw : ProperContents declared) {id : Text} {contents : Directory Content}
    (h : Flattens declared id contents) :
    Exact declared id contents ∧ Consistent declared id := by
  induction h with
  | @intro id d inherited contents parts hd _ hin hown ih =>
    have hwp : ∀ parent ∈ d.parents, ∀ name c, (parts parent).find? name = some c → c.WellFormed :=
      fun parent hp name c hf => (ih parent hp).1.wellFormed hw hf
    obtain ⟨-, hpart, hfrom⟩ := inheritAll_find? hwp (by simp) hin
    obtain ⟨honce, hfresh, hadd, hkeep⟩ := declare_eq_ok hown
    -- what an ancestor declares came down to the inherited contents
    have hdown : ∀ a name c, Ancestor declared id a → Declares declared a name c →
        ∃ c', inherited.find? name = some c' ∧ c.same c' = true := by
      intro a name c ha hc
      obtain ⟨parent, hp, hup⟩ := (ancestor_iff hd).mp ha
      obtain ⟨c', hf, hs⟩ := (ih parent hp).1.complete a name c hup hc
      obtain ⟨c'', hf', hs'⟩ := hpart parent hp name c' hf
      exact ⟨c'', hf', Content.same_trans hs hs'⟩
    have hown' : ∀ name c, Declares declared id name c ↔ c ∈ d.contents ∧ c.name = name := by
      intro name c
      constructor
      · rintro ⟨d', hd', hc⟩
        rw [hd] at hd'
        exact Option.some.inj hd' ▸ hc
      · exact fun hc => ⟨d, hd, hc⟩
    constructor
    · constructor
      · intro name c hf
        by_cases hname : name ∈ d.contents.map (·.name)
        · obtain ⟨own, ho, rfl⟩ := List.mem_map.mp hname
          rw [hadd own ho] at hf
          obtain rfl := Option.some.inj hf
          exact ⟨id, .refl, (hown' _ _).mpr ⟨ho, rfl⟩⟩
        · rw [hkeep name hname] at hf
          rcases hfrom name c hf with hf | ⟨parent, hp, hf⟩
          · simp at hf
          · obtain ⟨a, hup, ha⟩ := (ih parent hp).1.declares name c hf
            exact ⟨a, .head ⟨d, hd, hp⟩ hup, ha⟩
      · intro a name c hline hc
        rcases lineage_iff.mp hline with rfl | ha
        · obtain ⟨hm, rfl⟩ := (hown' _ _).mp hc
          exact ⟨c, hadd c hm, Content.same_refl (hw a _ c hc)⟩
        · obtain ⟨c', hf, hs⟩ := hdown a name c ha hc
          refine ⟨c', ?_, hs⟩
          rw [hkeep, hf]
          intro hname
          obtain ⟨own, ho, rfl⟩ := List.mem_map.mp hname
          rw [hfresh own ho] at hf
          cases hf
    · constructor
      · intro d' hd'
        rw [hd] at hd'
        exact Option.some.inj hd' ▸ honce
      · intro name c a c' hc ha hc'
        obtain ⟨hm, rfl⟩ := (hown' _ _).mp hc
        obtain ⟨c'', hf, -⟩ := hdown a _ c' ha hc'
        rw [hfresh c hm] at hf
        cases hf
      · intro name a c a' c' ha hc ha' hc'
        obtain ⟨e, hf, hs⟩ := hdown a name c ha hc
        obtain ⟨e', hf', hs'⟩ := hdown a' name c' ha' hc'
        rw [hf] at hf'
        obtain rfl := Option.some.inj hf'
        have hwe : e.WellFormed := by
          rcases hfrom name e hf with hf | ⟨parent, hp, hf⟩
          · simp at hf
          · exact hwp parent hp name e hf
        exact Content.same_trans hs (Content.same_symm (hw a' name c' hc') hwe hs')

theorem flattens_of_consistent (hw : ProperContents declared) (hacyclic : Acyclic declared)
    (hclosed : Closed declared) (hcons : ∀ i, declared.has i = true → Consistent declared i)
    {i : Text} (hi : declared.has i = true) : ∃ contents, Flattens declared i contents := by
  refine ancestor_induction (P := fun i => ∃ contents, Flattens declared i contents) hacyclic
    hclosed (fun i hi ih => ?_) hi
  obtain ⟨d, hd⟩ := Option.isSome_iff_exists.mp hi
  obtain ⟨parts, hparts⟩ : ∃ parts : Text → Directory Content,
      ∀ parent ∈ d.parents, Flattens declared parent (parts parent) := by
    classical
    refine ⟨fun parent => if h : ∃ contents, Flattens declared parent contents then h.choose
      else Directory.empty, fun parent hp => ?_⟩
    have h := ih parent ⟨d, hd, hp⟩
    simp only [h, ↓reduceDIte]
    exact h.choose_spec
  have hexact : ∀ parent ∈ d.parents, Exact declared parent (parts parent) :=
    fun parent hp => ((hparts parent hp).exact hw).1
  have hup : ∀ parent ∈ d.parents, ∀ name c, (parts parent).find? name = some c →
      ∃ a, Ancestor declared i a ∧ Declares declared a name c := by
    intro parent hp name c hf
    obtain ⟨a, hline, ha⟩ := (hexact parent hp).declares name c hf
    exact ⟨a, (ancestor_iff hd).mpr ⟨parent, hp, hline⟩, ha⟩
  obtain ⟨inherited, hin⟩ :
      ∃ inherited, inheritAll i parts Directory.empty d.parents = .ok inherited := by
    refine inheritAll_ok (by simp) fun p hp q hq name c c' hf hf' => ?_
    obtain ⟨a, ha, hc⟩ := hup p hp name c hf
    obtain ⟨a', ha', hc'⟩ := hup q hq name c' hf'
    exact (hcons i hi).agree name a c a' c' ha hc ha' hc'
  have hwp : ∀ parent ∈ d.parents, ∀ name c, (parts parent).find? name = some c → c.WellFormed :=
    fun parent hp name c hf => (hexact parent hp).wellFormed hw hf
  obtain ⟨contents, hown⟩ : ∃ contents, declare i inherited d.contents = .ok contents := by
    refine declare_ok ((hcons i hi).once d hd) fun c hc => ?_
    cases hf : inherited.find? c.name with
    | none => rfl
    | some c' =>
      exfalso
      rcases (inheritAll_find? hwp (by simp) hin).2.2 c.name c' hf with hf | ⟨parent, hp, hf⟩
      · simp at hf
      · obtain ⟨a, ha, hc'⟩ := hup parent hp c.name c' hf
        exact (hcons i hi).fresh c.name c a c' ⟨d, hd, hc, rfl⟩ ha hc'
  exact ⟨contents, .intro parts hd hparts hin hown⟩

end TwinGraph.Interface
