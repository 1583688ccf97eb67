import TypedLoader.Path.Basic

namespace TypedLoader

/-- A call to the compiler or the file system. Building and transpiling are
recorded with whether they succeeded. -/
inductive Call where
  | scan (text : String)
  | resolve (name : String) (file : Path)
  | build (succeeded : Bool)
  | transpile (file : Path) (succeeded : Bool)
  | read (file : Path)
  | byWorker (c : Call)
  | taken (worker : Nat) (message : String)
deriving DecidableEq

/-- What an action gives: its result, the state it leaves, and its calls, oldest
first. -/
structure Outcome (σ ε α : Type) where
  result : Except ε α
  state : σ
  calls : List Call := []

def Outcome.after {σ ε α : Type} (calls : List Call) (o : Outcome σ ε α) : Outcome σ ε α :=
  { o with calls := calls ++ o.calls }

def Action (σ ε α : Type) : Type := σ → Outcome σ ε α

namespace Action

variable {σ τ ε δ α β : Type}

def run (a : Action σ ε α) (s : σ) : Outcome σ ε α := a s

protected def pure (x : α) : Action σ ε α := fun s ↦ ⟨.ok x, s, []⟩

protected def bind (a : Action σ ε α) (f : α → Action σ ε β) : Action σ ε β := fun s ↦
  match a s with
  | ⟨.ok x, s, calls⟩ => (f x s).after calls
  | ⟨.error e, s, calls⟩ => ⟨.error e, s, calls⟩

instance : Monad (Action σ ε) where
  pure := Action.pure
  bind := Action.bind

def fail (e : ε) : Action σ ε α := fun s ↦ ⟨.error e, s, []⟩

def get : Action σ ε σ := fun s ↦ ⟨.ok s, s, []⟩

def set (s : σ) : Action σ ε Unit := fun _ ↦ ⟨.ok (), s, []⟩

def modify (f : σ → σ) : Action σ ε Unit := fun s ↦ ⟨.ok (), f s, []⟩

def update (f : σ → α × σ) : Action σ ε α := fun s ↦ ⟨.ok (f s).1, (f s).2, []⟩

def call (c : Call) : Action σ ε Unit := fun s ↦ ⟨.ok (), s, [c]⟩

def ofExcept (x : Except ε α) : Action σ ε α := fun s ↦ ⟨x, s, []⟩

def mapError (f : ε → δ) (a : Action σ ε α) : Action σ δ α := fun s ↦
  match a s with
  | ⟨.ok x, s, calls⟩ => ⟨.ok x, s, calls⟩
  | ⟨.error e, s, calls⟩ => ⟨.error (f e), s, calls⟩

def within (part : σ → τ) (put : τ → σ → σ) (a : Action τ ε α) : Action σ ε α := fun s ↦
  match a (part s) with
  | ⟨r, t, calls⟩ => ⟨r, put t s, calls⟩

/-- Runs an action on a state of its own, and gives the state it leaves. -/
def execOn (a : Action τ ε α) (t : τ) : Action σ ε τ := fun s ↦
  match a t with
  | ⟨.ok _, t, calls⟩ => ⟨.ok t, s, calls⟩
  | ⟨.error e, _, calls⟩ => ⟨.error e, s, calls⟩

def attempt (a : Action σ ε α) : Action σ δ (Except ε α) := fun s ↦
  match a s with
  | ⟨r, s, calls⟩ => ⟨.ok r, s, calls⟩

@[simp] theorem run_pure (x : α) (s : σ) : (pure x : Action σ ε α).run s = ⟨.ok x, s, []⟩ := rfl

theorem run_bind (a : Action σ ε α) (f : α → Action σ ε β) (s : σ) :
    (a >>= f).run s = match a.run s with
      | ⟨.ok x, s, calls⟩ => ((f x).run s).after calls
      | ⟨.error e, s, calls⟩ => ⟨.error e, s, calls⟩ := rfl

@[simp] theorem run_modify (f : σ → σ) (s : σ) :
    (modify f : Action σ ε Unit).run s = ⟨.ok (), f s, []⟩ := rfl

@[simp] theorem run_call (c : Call) (s : σ) :
    (call c : Action σ ε Unit).run s = ⟨.ok (), s, [c]⟩ := rfl

end Action

end TypedLoader
