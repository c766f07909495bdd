import TwinGraph.Proofs.Model.Declarations
import Mathlib.Order.WellFoundedSet

/-! Which interfaces extend which among declarations, and what a set of declarations must satisfy
to be flattened: nobody extends itself through its ancestors, no interface declares a name twice
or anew, and what comes down on several ways is one declaration. -/
namespace TwinGraph.Interface

open Relation

variable {declared : Directory Declaration}

def Extends (declared : Directory Declaration) (i parent : Text) : Prop :=
  ∃ d, declared.find? i = some d ∧ parent ∈ d.parents

def Declares (declared : Directory Declaration) (i name : Text) (c : Content) : Prop :=
  ∃ d, declared.find? i = some d ∧ c ∈ d.contents ∧ c.name = name

abbrev Ancestor (declared : Directory Declaration) (i a : Text) : Prop :=
  TransGen (Extends declared) i a

abbrev Lineage (declared : Directory Declaration) (i a : Text) : Prop :=
  ReflTransGen (Extends declared) i a

def Acyclic (declared : Directory Declaration) : Prop := ∀ i, ¬ Ancestor declared i i

/-- Every interface that is extended is declared. -/
def Closed (declared : Directory Declaration) : Prop :=
  ∀ i parent, Extends declared i parent → declared.has parent = true

def ProperContents (declared : Directory Declaration) : Prop :=
  ∀ i name c, Declares declared i name c → c.WellFormed

/-- What an interface declares goes together with what it inherits. -/
structure Consistent (declared : Directory Declaration) (i : Text) : Prop where
  once : ∀ d, declared.find? i = some d → (d.contents.map (·.name)).Nodup
  fresh : ∀ name c a c', Declares declared i name c → Ancestor declared i a →
    ¬ Declares declared a name c'
  agree : ∀ name a c a' c', Ancestor declared i a → Declares declared a name c →
    Ancestor declared i a' → Declares declared a' name c' → c.same c' = true

theorem ancestor_iff {i a : Text} {d : Declaration} (hd : declared.find? i = some d) :
    Ancestor declared i a ↔ ∃ parent ∈ d.parents, Lineage declared parent a := by
  refine TransGen.head'_iff.trans ?_
  constructor
  · rintro ⟨parent, ⟨d', hd', hp⟩, h⟩
    rw [hd] at hd'
    exact ⟨parent, Option.some.inj hd' ▸ hp, h⟩
  · rintro ⟨parent, hp, h⟩
    exact ⟨parent, ⟨d, hd, hp⟩, h⟩

theorem lineage_iff {i a : Text} : Lineage declared i a ↔ a = i ∨ Ancestor declared i a :=
  reflTransGen_iff_eq_or_transGen

/-- Without cycles a property that comes down from the extended interfaces holds of all. -/
theorem ancestor_induction (hacyclic : Acyclic declared) (hclosed : Closed declared)
    {P : Text → Prop}
    (h : ∀ i, declared.has i = true → (∀ parent, Extends declared i parent → P parent) → P i)
    {i : Text} (hi : declared.has i = true) : P i := by
  have : IsStrictOrder Text (fun a b => Ancestor declared b a) :=
    { irrefl := fun a => hacyclic a
      trans := fun a b c hab hbc => hbc.trans hab }
  have hfinite : {j | declared.has j = true}.Finite :=
    (List.finite_toSet declared.names).subset fun j hj => Directory.mem_names.mpr hj
  refine hfinite.wellFoundedOn.induction (r := fun a b => Ancestor declared b a) hi ?_
  intro j hj ih
  exact h j hj fun parent hp => ih parent (hclosed j parent hp) (.single hp)

end TwinGraph.Interface
