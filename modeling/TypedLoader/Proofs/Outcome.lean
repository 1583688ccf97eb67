import TypedLoader.Outcome

namespace TypedLoader

theorem mapError_eq_ok {ε δ α : Type} {f : ε → δ} {x : Except ε α} {a : α}
    (h : x.mapError f = .ok a) : x = .ok a := by
  cases x with
  | error e => cases h
  | ok b => exact congrArg Except.ok (Except.ok.inj h)

theorem map_eq_ok {ε α β : Type} {f : α → β} {x : Except ε α} {b : β} (h : x.map f = .ok b) :
    ∃ a, x = .ok a ∧ f a = b := by
  cases x with
  | error e => cases h
  | ok a => exact ⟨a, rfl, Except.ok.inj h⟩

theorem map_eq_ok_iff {ε α β : Type} {f : α → β} {x : Except ε α} {b : β} :
    x.map f = .ok b ↔ ∃ a, x = .ok a ∧ b = f a := by
  constructor
  · intro h
    obtain ⟨a, ha, rfl⟩ := map_eq_ok h
    exact ⟨a, ha, rfl⟩
  · rintro ⟨a, rfl, rfl⟩
    rfl

theorem mapError_eq_error {ε δ α : Type} {f : ε → δ} {x : Except ε α} {e : δ}
    (h : x.mapError f = .error e) : ∃ e', x = .error e' ∧ f e' = e := by
  cases x with
  | error e' => exact ⟨e', rfl, Except.error.inj h⟩
  | ok a => cases h

theorem map_eq_error {ε α β : Type} {f : α → β} {x : Except ε α} {e : ε}
    (h : x.map f = .error e) : x = .error e := by
  cases x with
  | error e' => exact congrArg Except.error (Except.error.inj h)
  | ok a => cases h

theorem bind_eq_error {ε α β : Type} {x : Except ε α} {f : α → Except ε β} {e : ε}
    (h : x.bind f = .error e) : x = .error e ∨ ∃ a, x = .ok a ∧ f a = .error e := by
  cases x with
  | error e' => exact Or.inl (congrArg Except.error (Except.error.inj h))
  | ok a => exact Or.inr ⟨a, rfl, h⟩

theorem bind_eq_ok {ε α β : Type} {x : Except ε α} {f : α → Except ε β} {b : β}
    (h : x.bind f = .ok b) : ∃ a, x = .ok a ∧ f a = .ok b := by
  cases x with
  | error e => cases h
  | ok a => exact ⟨a, rfl, h⟩

namespace Outcome

variable {σ ε α : Type}

@[simp] theorem after_nil (o : Outcome σ ε α) : o.after [] = o := rfl

theorem after_still (calls : List Call) (r : Except ε α) (s : σ) :
    (⟨r, s, []⟩ : Outcome σ ε α).after calls = ⟨r, s, calls⟩ :=
  congrArg (Outcome.mk r s) (List.append_nil calls)

end Outcome

namespace Action

variable {σ ε α : Type}

theorem run_forM_nil (f : α → Action σ ε Unit) (s : σ) :
    (([] : List α).forM f).run s = ⟨.ok (), s, []⟩ := rfl

theorem run_forM_cons (f : α → Action σ ε Unit) (x : α) (a : List α) (s : σ) :
    ((x :: a).forM f).run s = (f x >>= fun _ ↦ a.forM f).run s := rfl

theorem run_forM_append (f : α → Action σ ε Unit) (a b : List α) (s : σ) :
    ((a ++ b).forM f).run s = ((do a.forM f; b.forM f : Action σ ε Unit)).run s := by
  induction a generalizing s with
  | nil => exact (Outcome.after_nil _).symm
  | cons x a ih =>
    rw [List.cons_append, run_forM_cons, run_bind, run_bind, run_forM_cons, run_bind]
    cases hx : (f x).run s with
    | mk r t calls =>
      cases r with
      | error e => rfl
      | ok u =>
        simp only [ih]
        rw [run_bind]
        cases ha : (a.forM f).run t with
        | mk r' t' calls' =>
          cases r' with
          | error e => rfl
          | ok u' => simp only [Outcome.after, List.append_assoc]

theorem forM_map {β : Type} (f : α → Action σ ε Unit) (g : β → α) (l : List β) :
    (l.map g).forM f = l.forM fun b ↦ f (g b) := by
  induction l with
  | nil => rfl
  | cons b l ih =>
    have hf : ((b :: l).map g).forM f = f (g b) >>= fun _ ↦ (l.map g).forM f := rfl
    rw [hf, ih]
    rfl

theorem run_bind_ok {β : Type} {a : Action σ ε α} {f : α → Action σ ε β} {s : σ} {y : β}
    (h : ((a >>= f).run s).result = .ok y) : ∃ x, (a.run s).result = .ok x ∧
      ((f x).run (a.run s).state).result = .ok y ∧
      ((a >>= f).run s).state = ((f x).run (a.run s).state).state := by
  rw [run_bind] at h ⊢
  rcases hrun : a.run s with ⟨e | x, s', calls⟩
  · rw [hrun] at h
    cases h
  · rw [hrun] at h
    exact ⟨x, rfl, h, rfl⟩

theorem run_bind_of_ok {β : Type} {a : Action σ ε α} {s : σ} {x : α}
    (h : (a.run s).result = .ok x) (f : α → Action σ ε β) :
    (a >>= f).run s = ((f x).run (a.run s).state).after (a.run s).calls := by
  rw [run_bind]
  rcases hrun : a.run s with ⟨e | y, s', calls⟩
  · rw [hrun] at h
    cases h
  · rw [hrun] at h
    obtain rfl := Except.ok.inj h
    rfl

theorem run_bind_of_error {β : Type} {a : Action σ ε α} {s : σ} {e : ε}
    (h : (a.run s).result = .error e) (f : α → Action σ ε β) :
    (a >>= f).run s = ⟨.error e, (a.run s).state, (a.run s).calls⟩ := by
  rw [run_bind]
  rcases hrun : a.run s with ⟨e' | y, s', calls⟩
  · rw [hrun] at h
    obtain rfl := Except.error.inj h
    rfl
  · rw [hrun] at h
    cases h

theorem run_get_bind {β : Type} (f : σ → Action σ ε β) (s : σ) :
    (get >>= f).run s = (f s).run s := rfl

theorem run_pure_bind {β : Type} (x : α) (f : α → Action σ ε β) (s : σ) :
    (pure x >>= f).run s = (f x).run s := rfl

theorem run_bind_of_still {β : Type} {a : Action σ ε α} {s : σ} {x : α}
    (h : a.run s = ⟨.ok x, s, []⟩) (f : α → Action σ ε β) : (a >>= f).run s = (f x).run s := by
  rw [run_bind, h]
  rfl

theorem run_ofExcept_bind {β δ : Type} {x : Except δ α} {a : α} (h : x = .ok a) {g : δ → ε}
    (f : α → Action σ ε β) (s : σ) :
    ((ofExcept (x.mapError g) : Action σ ε α) >>= f).run s = (f a).run s := by
  have hrun : (ofExcept (x.mapError g) : Action σ ε α).run s = ⟨.ok a, s, []⟩ := by
    rw [h]
    rfl
  exact run_bind_of_still hrun f

theorem run_bind_of_still_after {β : Type} {a : Action σ ε α}
    {f : α → Action σ ε β} {g : α → Except ε β} (hf : ∀ x s, (f x).run s = ⟨g x, s, []⟩) (s : σ) :
    (a >>= f).run s = ⟨(a.run s).result.bind g, (a.run s).state, (a.run s).calls⟩ := by
  cases hr : (a.run s).result with
  | error e =>
    rw [run_bind_of_error hr]
    rfl
  | ok x =>
    rw [run_bind_of_ok hr, hf, Outcome.after_still]
    rfl

theorem run_bind_of_after {β : Type} {a : Action σ ε α} {s t : σ} {calls : List Call}
    (h : a.run s = (a.run t).after calls) (f : α → Action σ ε β) :
    (a >>= f).run s = ((a >>= f).run t).after calls := by
  have hresult := congrArg Outcome.result h
  have hstate := congrArg Outcome.state h
  have hcalls := congrArg Outcome.calls h
  cases hr : (a.run t).result with
  | error e =>
    rw [run_bind_of_error (hresult.trans hr), run_bind_of_error hr, hstate, hcalls]
    rfl
  | ok x =>
    rw [run_bind_of_ok (hresult.trans hr), run_bind_of_ok hr, hstate, hcalls]
    simp only [Outcome.after, List.append_assoc]

theorem run_bind_pure {β : Type} (a : Action σ ε α) (f : α → β) (s : σ) :
    ((a >>= fun x ↦ pure (f x)).run s).result = (a.run s).result.map f ∧
      ((a >>= fun x ↦ pure (f x)).run s).state = (a.run s).state := by
  rw [run_bind]
  rcases a.run s with ⟨e | x, s', calls⟩ <;> exact ⟨rfl, rfl⟩

theorem run_attempt {δ : Type} (a : Action σ ε α) (s : σ) :
    (a.attempt : Action σ δ (Except ε α)).run s =
      ⟨.ok (a.run s).result, (a.run s).state, (a.run s).calls⟩ := rfl

theorem run_attempt_bind {δ β : Type} (a : Action σ ε α) (f : Except ε α → Action σ δ β) (s : σ) :
    (a.attempt >>= f).run s =
      ((f (a.run s).result).run (a.run s).state).after (a.run s).calls := rfl

theorem run_update (f : σ → α × σ) (s : σ) :
    (update f : Action σ ε α).run s = ⟨.ok (f s).1, (f s).2, []⟩ := rfl

theorem result_execOn {τ : Type} (a : Action τ ε α) (t : τ) (s : σ) :
    ((execOn a t).run s).result = (a.run t).result.map fun _ ↦ (a.run t).state := by
  rw [run, run, execOn]
  rcases a t with ⟨e | x, t', calls⟩ <;> rfl

theorem state_execOn {τ : Type} (a : Action τ ε α) (t : τ) (s : σ) :
    ((execOn a t).run s).state = s := by
  rw [run, execOn]
  rcases a t with ⟨e | x, t', calls⟩ <;> rfl

theorem run_mapError {δ : Type} (f : ε → δ) (a : Action σ ε α) (s : σ) :
    (a.mapError f).run s =
      ⟨(a.run s).result.mapError f, (a.run s).state, (a.run s).calls⟩ := by
  rw [run, run, mapError]
  rcases a s with ⟨e | x, s', calls⟩ <;> rfl

theorem run_mapError_ok {δ : Type} {f : ε → δ} {a : Action σ ε α} {s : σ} {x : α}
    (h : ((a.mapError f).run s).result = .ok x) :
    (a.run s).result = .ok x ∧ ((a.mapError f).run s).state = (a.run s).state := by
  rw [run_mapError] at h ⊢
  cases hr : (a.run s).result with
  | error e =>
    rw [hr] at h
    cases h
  | ok y =>
    rw [hr] at h
    exact ⟨congrArg Except.ok (Except.ok.inj h), rfl⟩

/-- Whether it succeeds or fails, the action leaves a state with the property
when it finds one. -/
def Keeps (P : σ → Prop) (a : Action σ ε α) : Prop := ∀ s, P s → P (a.run s).state

section Keeping

variable {β δ : Type} {P : σ → Prop}

theorem keeps_pure (x : α) : Keeps P (pure x : Action σ ε α) := fun _ h ↦ h

theorem keeps_fail (e : ε) : Keeps P (fail e : Action σ ε α) := fun _ h ↦ h

theorem keeps_get : Keeps P (get : Action σ ε σ) := fun _ h ↦ h

theorem keeps_get_bind {f : σ → Action σ ε β} (h : ∀ s, P s → P ((f s).run s).state) :
    Keeps P (get >>= f) := h

theorem keeps_call (c : Call) : Keeps P (call c : Action σ ε Unit) := fun _ h ↦ h

theorem keeps_modify {f : σ → σ} (h : ∀ s, P s → P (f s)) :
    Keeps P (modify f : Action σ ε Unit) := h

theorem Keeps.bind {a : Action σ ε α} {f : α → Action σ ε β} (ha : Keeps P a)
    (hf : ∀ x, Keeps P (f x)) : Keeps P (a >>= f) := by
  intro s hs
  rw [run_bind]
  have hs' := ha s hs
  rcases hrun : a.run s with ⟨e | x, s', calls⟩
  · rw [hrun] at hs'
    exact hs'
  · rw [hrun] at hs'
    exact hf x s' hs'

theorem Keeps.mapError {a : Action σ ε α} (h : Keeps P a) (f : ε → δ) : Keeps P (a.mapError f) := by
  intro s hs
  rw [run_mapError]
  exact h s hs

theorem Keeps.attempt {a : Action σ ε α} (h : Keeps P a) :
    Keeps P (a.attempt : Action σ δ (Except ε α)) := h

end Keeping

/-- All calls of the action have the property, whether it succeeds or fails. -/
def Calls (Q : Call → Prop) (a : Action σ ε α) : Prop := ∀ s, ∀ c ∈ (a.run s).calls, Q c

section Calling

variable {τ β δ : Type} {Q : Call → Prop}

theorem calls_pure (x : α) : Calls Q (pure x : Action σ ε α) := by
  intro s c hc
  cases hc

theorem calls_fail (e : ε) : Calls Q (fail e : Action σ ε α) := by
  intro s c hc
  cases hc

theorem calls_get : Calls Q (get : Action σ ε σ) := by
  intro s c hc
  cases hc

theorem calls_modify (f : σ → σ) : Calls Q (modify f : Action σ ε Unit) := by
  intro s c hc
  cases hc

theorem calls_update (f : σ → α × σ) : Calls Q (update f : Action σ ε α) := by
  intro s c hc
  cases hc

theorem calls_call {c : Call} (h : Q c) : Calls Q (call c : Action σ ε Unit) := by
  intro s c' hc
  obtain rfl := List.mem_singleton.1 hc
  exact h

theorem Calls.bind {a : Action σ ε α} {f : α → Action σ ε β} (ha : Calls Q a)
    (hf : ∀ x, Calls Q (f x)) : Calls Q (a >>= f) := by
  intro s c hc
  have ha := ha s c
  rw [run_bind] at hc
  rcases hrun : a.run s with ⟨e | x, s', calls⟩
  · rw [hrun] at hc ha
    exact ha hc
  · rw [hrun] at hc ha
    rcases List.mem_append.1 hc with hc | hc
    · exact ha hc
    · exact hf x s' c hc

theorem Calls.within {a : Action τ ε α} (h : Calls Q a) (part : σ → τ) (put : τ → σ → σ) :
    Calls Q (a.within part put) := fun s ↦ h (part s)

theorem Calls.forM {β : Type} {f : β → Action σ ε Unit} (h : ∀ x, Calls Q (f x)) (l : List β) :
    Calls Q (l.forM f) := by
  induction l with
  | nil => exact calls_pure ()
  | cons x l ih => exact (h x).bind fun _ ↦ ih

end Calling

end Action

end TypedLoader
