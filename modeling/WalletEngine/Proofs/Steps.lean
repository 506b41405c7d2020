/-! # Steps

A reader carries a state and may fail, so a sequence of readers is known from what each of them does
with the state that the one before it left. An action carries a state as well, but the state outlives
its failure.
-/

namespace WalletEngine.Steps

variable {σ ε α β : Type}

/-! ## Readers -/

theorem bind_apply (x : StateT σ (Except ε) α) (f : α → StateT σ (Except ε) β) (s : σ) :
    (x >>= f) s = match x s with
      | .ok (a, rest) => f a rest
      | .error fault => .error fault := by
  change (x s >>= fun p => f p.1 p.2) = _
  cases x s <;> rfl

theorem map_apply (f : α → β) (x : StateT σ (Except ε) α) (s : σ) :
    (f <$> x) s = match x s with
      | .ok (a, rest) => .ok (f a, rest)
      | .error fault => .error fault := by
  change (x s >>= fun p => pure (f p.1, p.2)) = _
  cases x s <;> rfl

theorem pure_apply (a : α) (s : σ) : (pure a : StateT σ (Except ε) α) s = .ok (a, s) := rfl

theorem eq_of_pure_ok {a b : α} {s rest : σ}
    (h : (pure a : StateT σ (Except ε) α) s = .ok (b, rest)) : s = rest := by
  cases h
  rfl

theorem get_apply (s : σ) : (get : StateT σ (Except ε) σ) s = .ok (s, s) := rfl

theorem set_apply (s rest : σ) : (set rest : StateT σ (Except ε) PUnit) s = .ok (⟨⟩, rest) := rfl

theorem bind_of_ok {x : StateT σ (Except ε) α} {f : α → StateT σ (Except ε) β} {s rest : σ} {a : α}
    (h : x s = .ok (a, rest)) : (x >>= f) s = f a rest := by
  rw [bind_apply, h]

theorem map_of_ok {x : StateT σ (Except ε) α} {s rest : σ} {a : α}
    (h : x s = .ok (a, rest)) (f : α → β) : (f <$> x) s = .ok (f a, rest) := by
  rw [map_apply, h]

theorem bind_of_error {x : StateT σ (Except ε) α} {f : α → StateT σ (Except ε) β} {s : σ}
    {fault : ε} (h : x s = .error fault) : (x >>= f) s = .error fault := by
  rw [bind_apply, h]

theorem bind_ok_iff {x : StateT σ (Except ε) α} {f : α → StateT σ (Except ε) β} {s rest : σ}
    {b : β} : (x >>= f) s = .ok (b, rest) ↔
      ∃ a middle, x s = .ok (a, middle) ∧ f a middle = .ok (b, rest) := by
  rw [bind_apply]
  constructor
  · intro h
    split at h
    next a middle hx => exact ⟨a, middle, hx, h⟩
    next => cases h
  · rintro ⟨a, middle, hx, hf⟩
    rw [hx]
    exact hf

theorem map_ok_iff {f : α → β} {x : StateT σ (Except ε) α} {s rest : σ} {b : β} :
    (f <$> x) s = .ok (b, rest) ↔ ∃ a, x s = .ok (a, rest) ∧ f a = b := by
  rw [← bind_pure_comp, bind_ok_iff]
  constructor
  · rintro ⟨a, _, hx, ⟨⟩⟩
    exact ⟨a, hx, rfl⟩
  · rintro ⟨a, hx, rfl⟩
    exact ⟨a, rest, hx, rfl⟩

/-! ## Outcomes -/

theorem bind_eq_ok_iff {x : Except ε α} {f : α → Except ε β} {b : β} :
    x >>= f = .ok b ↔ ∃ a, x = .ok a ∧ f a = .ok b := by
  cases x with
  | error fault =>
      constructor
      · rintro ⟨⟩
      · rintro ⟨a, ⟨⟩, -⟩
  | ok a =>
      constructor
      · exact fun h => ⟨a, rfl, h⟩
      · rintro ⟨b, ⟨⟩, h⟩
        exact h

theorem map_eq_ok_iff {f : α → β} {x : Except ε α} {b : β} :
    f <$> x = .ok b ↔ ∃ a, x = .ok a ∧ f a = b := by
  rw [← bind_pure_comp, bind_eq_ok_iff]
  constructor
  · rintro ⟨a, hx, ⟨⟩⟩
    exact ⟨a, hx, rfl⟩
  · rintro ⟨a, hx, rfl⟩
    exact ⟨a, hx, rfl⟩

/-! ## Actions -/

theorem run_bind_of_run {x : StateM σ α} {f : α → StateM σ β} {s rest : σ} {a : α}
    (h : x.run s = (a, rest)) : (x >>= f).run s = (f a).run rest := by
  rw [StateT.run_bind, h]
  rfl

/-- The outcome of an action and the state that it leaves. -/
def outcome (x : ExceptT ε (StateM σ) α) (s : σ) : Except ε α × σ := (x.run.run s).run

theorem outcome_pure (a : α) (s : σ) : outcome (ε := ε) (pure a) s = (.ok a, s) := rfl

theorem outcome_bind (x : ExceptT ε (StateM σ) α) (f : α → ExceptT ε (StateM σ) β) (s : σ) :
    outcome (x >>= f) s = match outcome x s with
      | (.ok a, rest) => outcome (f a) rest
      | (.error fault, rest) => (.error fault, rest) := by
  have hbind : outcome (x >>= f) s =
      ((ExceptT.bindCont f (outcome x s).1).run (outcome x s).2).run := rfl
  rw [hbind]
  rcases outcome x s with ⟨_ | _, rest⟩ <;> rfl

theorem outcome_bind_of_ok {x : ExceptT ε (StateM σ) α} {f : α → ExceptT ε (StateM σ) β}
    {s rest : σ} {a : α} (h : outcome x s = (.ok a, rest)) :
    outcome (x >>= f) s = outcome (f a) rest := by
  rw [outcome_bind, h]

theorem outcome_bind_of_error {x : ExceptT ε (StateM σ) α} {f : α → ExceptT ε (StateM σ) β}
    {s rest : σ} {fault : ε} (h : outcome x s = (.error fault, rest)) :
    outcome (x >>= f) s = (.error fault, rest) := by
  rw [outcome_bind, h]

/-- What succeeds has succeeded at first. -/
theorem exists_of_bind_ok {x : ExceptT ε (StateM σ) α} {f : α → ExceptT ε (StateM σ) β} {s : σ}
    {b : β} (h : (outcome (x >>= f) s).1 = .ok b) :
    ∃ a, (outcome x s).1 = .ok a ∧ outcome (x >>= f) s = outcome (f a) (outcome x s).2 := by
  rw [outcome_bind] at h ⊢
  generalize outcome x s = out at h ⊢
  rcases out with ⟨_ | a, rest⟩
  · cases h
  · exact ⟨a, rfl, rfl⟩

/-- What fails has failed at first, or in what comes then. -/
theorem fault_of_bind {x : ExceptT ε (StateM σ) α} {f : α → ExceptT ε (StateM σ) β} {s : σ}
    {fault : ε} (h : (outcome (x >>= f) s).1 = .error fault) :
    (outcome x s).1 = .error fault ∨ ∃ a later, (outcome (f a) later).1 = .error fault := by
  rw [outcome_bind] at h
  generalize outcome x s = out at h ⊢
  rcases out with ⟨_ | a, rest⟩
  · cases h
    exact .inl rfl
  · exact .inr ⟨a, rest, h⟩

theorem outcome_map (f : α → β) (x : ExceptT ε (StateM σ) α) (s : σ) :
    outcome (f <$> x) s = ((outcome x s).1.map f, (outcome x s).2) := by
  rw [← bind_pure_comp, outcome_bind]
  rcases outcome x s with ⟨_ | _, rest⟩ <;> rfl

/-- A step that cannot fail. -/
theorem outcome_lift (x : StateM σ α) (s : σ) :
    outcome (ε := ε) (liftM x) s = (.ok (x.run s).run.1, (x.run s).run.2) := rfl

theorem outcome_lift_of_run {x : StateM σ α} {s rest : σ} {a : α} (h : x.run s = (a, rest)) :
    outcome (ε := ε) (liftM x) s = (.ok a, rest) := by
  rw [outcome_lift, h]
  rfl

/-- What is known already. -/
theorem outcome_lift_except (x : Except ε α) (s : σ) :
    outcome (liftM x : ExceptT ε (StateM σ) α) s = (x, s) := by
  cases x <;> rfl

end WalletEngine.Steps
