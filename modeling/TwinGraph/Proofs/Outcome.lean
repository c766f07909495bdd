import Mathlib.Data.List.Forall2

/-! Steps that may fail, one after another: what success or failure of the whole says about
each step. Such steps may also go on from a state, which a failure leaves as it is then. -/
namespace TwinGraph.Outcome

variable {ε σ α β : Type}

theorem bind_eq_ok {x : Except ε α} {f : α → Except ε β} {b : β} :
    (x >>= f) = .ok b ↔ ∃ a, x = .ok a ∧ f a = .ok b := by
  cases x <;> simp [bind, Except.bind]

theorem bind_eq_error {x : Except ε α} {f : α → Except ε β} {e : ε} :
    (x >>= f) = .error e ↔ x = .error e ∨ ∃ a, x = .ok a ∧ f a = .error e := by
  cases x <;> simp [bind, Except.bind]

@[simp] theorem pure_eq_ok {a b : α} : (pure a : Except ε α) = .ok b ↔ a = b := by
  simp [pure, Except.pure]

@[simp] theorem mapError_eq_ok {ε' : Type} {x : Except ε α} {f : ε → ε'} {a : α} :
    x.mapError f = .ok a ↔ x = .ok a := by
  cases x <;> simp [Except.mapError]

theorem mapM_eq_ok {f : α → Except ε β} {as : List α} {bs : List β} :
    as.mapM f = .ok bs ↔ List.Forall₂ (fun a b => f a = .ok b) as bs := by
  induction as generalizing bs with
  | nil => rw [List.mapM_nil, pure_eq_ok, List.forall₂_nil_left_iff, eq_comm]
  | cons a as ih =>
    rw [List.mapM_cons, bind_eq_ok, List.forall₂_cons_left_iff]
    constructor
    · rintro ⟨b, hb, h⟩
      obtain ⟨bs', hbs', h⟩ := bind_eq_ok.mp h
      exact ⟨b, bs', hb, ih.mp hbs', (pure_eq_ok.mp h).symm⟩
    · rintro ⟨b, bs', hb, hbs', rfl⟩
      exact ⟨b, hb, bind_eq_ok.mpr ⟨bs', ih.mpr hbs', rfl⟩⟩

theorem mem_of_mapM {f : α → Except ε β} {as : List α} {bs : List β} (h : as.mapM f = .ok bs) :
    ∀ b ∈ bs, ∃ a ∈ as, f a = .ok b := by
  intro b hb
  induction mapM_eq_ok.mp h with
  | nil => simp at hb
  | @cons a b' as bs hab _ ih =>
    rcases List.mem_cons.mp hb with rfl | hb
    · exact ⟨a, List.mem_cons_self, hab⟩
    · obtain ⟨a', ha', hf⟩ := ih (mapM_eq_ok.mpr ‹_›) hb
      exact ⟨a', List.mem_cons_of_mem _ ha', hf⟩

theorem ok_of_mapM {f : α → Except ε β} {as : List α} {bs : List β} (h : as.mapM f = .ok bs) :
    ∀ a ∈ as, ∃ b ∈ bs, f a = .ok b := by
  intro a ha
  induction mapM_eq_ok.mp h with
  | nil => simp at ha
  | @cons a' b as bs hab _ ih =>
    rcases List.mem_cons.mp ha with rfl | ha
    · exact ⟨b, List.mem_cons_self, hab⟩
    · obtain ⟨b', hb', hf⟩ := ih (mapM_eq_ok.mpr ‹_›) ha
      exact ⟨b', List.mem_cons_of_mem _ hb', hf⟩

theorem mapM_ok {f : α → Except ε β} {as : List α} (h : ∀ a ∈ as, ∃ b, f a = .ok b) :
    ∃ bs, as.mapM f = .ok bs := by
  induction as with
  | nil => exact ⟨[], rfl⟩
  | cons a as ih =>
    rw [List.forall_mem_cons] at h
    obtain ⟨b, hb⟩ := h.1
    obtain ⟨bs, hbs⟩ := ih h.2
    refine ⟨b :: bs, ?_⟩
    rw [List.mapM_cons]
    exact bind_eq_ok.mpr ⟨b, hb, bind_eq_ok.mpr ⟨bs, hbs, rfl⟩⟩

theorem mapM_congr {f g : α → Except ε β} {as : List α} (h : ∀ a ∈ as, f a = g a) :
    as.mapM f = as.mapM g := by
  induction as with
  | nil => rfl
  | cons a as ih =>
    rw [List.mapM_cons, List.mapM_cons, h a List.mem_cons_self,
      ih fun b hb => h b (List.mem_cons_of_mem _ hb)]

/-- The first step that fails decides the error. -/
theorem mapM_eq_error {f : α → Except ε β} {done rest : List α} {a : α} {e : ε}
    (hdone : ∀ b ∈ done, ∃ c, f b = .ok c) (h : f a = .error e) :
    (done ++ a :: rest).mapM f = .error e := by
  induction done with
  | nil =>
    rw [List.nil_append, List.mapM_cons]
    exact bind_eq_error.mpr (Or.inl h)
  | cons b done ih =>
    rw [List.forall_mem_cons] at hdone
    obtain ⟨c, hc⟩ := hdone.1
    rw [List.cons_append, List.mapM_cons]
    exact bind_eq_error.mpr (Or.inr ⟨c, hc, bind_eq_error.mpr (Or.inl (ih hdone.2))⟩)

theorem foldlM_eq_error {f : β → α → Except ε β} {as : List α} {b : β} {e : ε}
    (h : as.foldlM f b = .error e) : ∃ a ∈ as, ∃ b', f b' a = .error e := by
  induction as generalizing b with
  | nil => cases h
  | cons a as ih =>
    rw [List.foldlM_cons] at h
    rcases bind_eq_error.mp h with h | ⟨b', -, h⟩
    · exact ⟨a, List.mem_cons_self, b, h⟩
    · obtain ⟨a', ha', h⟩ := ih h
      exact ⟨a', List.mem_cons_of_mem _ ha', h⟩

theorem run_bind (x : ExceptT ε (StateM σ) α) (f : α → ExceptT ε (StateM σ) β) (s : σ) :
    (x >>= f).run s =
      match x.run s with
      | (.ok a, s') => (f a).run s'
      | (.error e, s') => (.error e, s') := by
  show (ExceptT.bindCont f (x.run s).1).run (x.run s).2 = _
  rcases x.run s with ⟨_ | _, _⟩ <;> rfl

theorem run_bind_eq_ok {x : ExceptT ε (StateM σ) α} {f : α → ExceptT ε (StateM σ) β}
    {s s'' : σ} {b : β} : (x >>= f).run s = (.ok b, s'') ↔
      ∃ a s', x.run s = (.ok a, s') ∧ (f a).run s' = (.ok b, s'') := by
  rw [run_bind]
  constructor
  · intro h
    split at h
    · next a s' hx => exact ⟨a, s', hx, h⟩
    · cases h
  · rintro ⟨a, s', hx, h⟩
    rw [hx]
    exact h

/-- What follows and leaves the state alone does not matter for it. -/
theorem state_bind {x : ExceptT ε (StateM σ) α} {f : α → ExceptT ε (StateM σ) β} {s : σ}
    (hf : ∀ a t, ((f a).run t).2 = t) : ((x >>= f).run s).2 = (x.run s).2 := by
  rw [run_bind]
  rcases x.run s with ⟨result, t⟩
  cases result with
  | ok a => exact hf a t
  | error e => rfl

theorem run_lift (x : Except ε α) (s : σ) : (liftM x : ExceptT ε (StateM σ) α).run s = (x, s) :=
  rfl

theorem run_lift_bind_eq_ok {x : Except ε α} {f : α → ExceptT ε (StateM σ) β} {s s'' : σ} {b : β} :
    (liftM x >>= f).run s = (.ok b, s'') ↔ ∃ a, x = .ok a ∧ (f a).run s = (.ok b, s'') := by
  rw [run_bind_eq_ok]
  constructor
  · rintro ⟨a, s', hx, h⟩
    rw [run_lift, Prod.mk.injEq] at hx
    obtain ⟨hx, rfl⟩ := hx
    exact ⟨a, hx, h⟩
  · rintro ⟨a, rfl, h⟩
    exact ⟨a, s, rfl, h⟩

theorem run_adapt {ε' : Type} (f : ε → ε') (x : ExceptT ε (StateM σ) α) (s : σ) :
    (x.adapt f).run s = ((x.run s).1.mapError f, (x.run s).2) := rfl

theorem run_adapt_eq_ok {ε' : Type} {f : ε → ε'} {x : ExceptT ε (StateM σ) α} {s s' : σ} {a : α} :
    (x.adapt f).run s = (.ok a, s') ↔ x.run s = (.ok a, s') := by
  rw [run_adapt, Prod.mk.injEq, mapError_eq_ok]
  rcases x.run s with ⟨result, next⟩
  exact (Prod.mk.injEq _ _ _ _).symm.to_iff

end TwinGraph.Outcome
