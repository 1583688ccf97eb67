namespace TypedLoader

variable {α : Type}

def exhaust (step? : α → Option α) (measure : α → Nat)
    (lower : ∀ {a b : α}, step? a = some b → measure b < measure a) (a : α) : α :=
  match h : step? a with
  | none => a
  | some b =>
    have := lower h
    exhaust step? measure lower b
termination_by measure a

theorem step_exhaust (step? : α → Option α) (measure : α → Nat)
    (lower : ∀ {a b : α}, step? a = some b → measure b < measure a) (a : α) :
    step? (exhaust step? measure lower a) = none := by
  fun_induction exhaust step? measure lower a with
  | case1 a h => exact h
  | case2 a b h _ ih => exact ih

theorem exhaust_of_none (step? : α → Option α) (measure : α → Nat)
    (lower : ∀ {a b : α}, step? a = some b → measure b < measure a) {a : α} (h : step? a = none) :
    exhaust step? measure lower a = a := by
  rw [exhaust]
  split
  · rfl
  · rename_i hb
    rw [h] at hb
    cases hb

theorem exhaust_of_some (step? : α → Option α) (measure : α → Nat)
    (lower : ∀ {a b : α}, step? a = some b → measure b < measure a) {a b : α}
    (h : step? a = some b) :
    exhaust step? measure lower a = exhaust step? measure lower b := by
  rw [exhaust]
  split
  · rename_i hn
    rw [h] at hn
    cases hn
  · rename_i hb
    rw [h] at hb
    rw [Option.some.inj hb]

theorem exhaust_invariant {p : α → Prop} (step? : α → Option α) (measure : α → Nat)
    (lower : ∀ {a b : α}, step? a = some b → measure b < measure a)
    (keep : ∀ {a b : α}, step? a = some b → p a → p b) (a : α) (h : p a) :
    p (exhaust step? measure lower a) := by
  fun_induction exhaust step? measure lower a with
  | case1 a _ => exact h
  | case2 a b hs _ ih => exact ih (keep hs h)

end TypedLoader
