import TypedLoader.Checker.Serve

namespace TypedLoader

/-- Where a worker runs: in this process, or in a process of its own. -/
inductive WorkerHome where
  | within
  | apart
deriving DecidableEq, Inhabited

abbrev Workers := WorkerHome → World

inductive WorkerAction where
  | read
  | readLine
  | write (bytes : Bytes)
  | exit
deriving DecidableEq, Inhabited

inductive Worker where
  | serving (home : WorkerHome) (session : Session)
  | scripted (label : Nat) (actions : List WorkerAction)
  | ended

namespace Worker

def hasEnded : Worker → Bool
  | ended => true
  | _ => false

/-- A worker after a step, what is left of its input, what it wrote, and its
calls. -/
structure Step where
  worker : Worker
  input : Bytes
  output : Bytes := []
  calls : List Call := []

def seenCalls (home : WorkerHome) (calls : List Call) : List Call :=
  match home with
  | .within => calls.map .byWorker
  | .apart => []

def answer (w : Workers) (home : WorkerHome) (s : Session) (message : String) (rest : Bytes) :
    Step :=
  if Text.allBlank message then { worker := serving home s, input := rest }
  else
    let (response, s, calls) := Serve.respond (w home) s message
    { worker := serving home s
      input := rest
      output := Serve.encode response
      calls := seenCalls home calls }

/-- The next step of a worker, unless it has ended or waits for more input. -/
def step? (w : Workers) (input : Bytes) : Worker → Option Step
  | ended => none
  | serving home s =>
    match Frame.next false input with
    | .message text rest => some (answer w home s text rest)
    | .failed _ => some { worker := ended, input }
    | _ => none
  | scripted label actions =>
    match actions with
    | .read :: actions =>
      match Frame.next false input with
      | .message text rest =>
        some { worker := scripted label actions, input := rest, calls := [.taken label text] }
      | .failed _ => some { worker := ended, input }
      | _ => none
    | .readLine :: actions =>
      if input.contains 10 then
        some { worker := scripted label actions, input := (Frame.cutLine input).2 }
      else none
    | .write bytes :: actions =>
      some { worker := scripted label actions, input, output := bytes }
    | .exit :: _ => some { worker := ended, input }
    | [] => if input.isEmpty then none else some { worker := scripted label [], input := [] }

def stepsLeft : Worker → Nat
  | serving .. => 1
  | scripted _ actions => actions.length + 1
  | ended => 0

theorem worker_answer (w : Workers) (home : WorkerHome) (s : Session) (message : String)
    (rest : Bytes) : (answer w home s message rest).worker.stepsLeft = 1 ∧
      (answer w home s message rest).input = rest := by
  unfold answer
  split <;> exact ⟨rfl, rfl⟩

theorem step_lt {w : Workers} {input : Bytes} {worker : Worker} {t : Step}
    (h : step? w input worker = some t) :
    t.input.length + t.worker.stepsLeft < input.length + worker.stepsLeft := by
  unfold step? at h
  split at h
  · simp at h
  · rename_i home s
    split at h
    · rename_i text rest hn
      simp only [Option.some.injEq] at h
      subst h
      have := Frame.length_of_next hn
      obtain ⟨h₁, h₂⟩ := worker_answer w home s text rest
      rw [h₁, h₂]
      simp only [stepsLeft]
      omega
    · simp only [Option.some.injEq] at h
      subst h
      simp [stepsLeft]
    · simp at h
  · split at h
    · split at h
      · rename_i text rest hn
        simp only [Option.some.injEq] at h
        subst h
        have := Frame.length_of_next hn
        simp only [stepsLeft, List.length_cons]
        omega
      · simp only [Option.some.injEq] at h
        subst h
        simp only [stepsLeft, List.length_cons]
        omega
      · simp at h
    · split at h
      · simp only [Option.some.injEq] at h
        subst h
        have := Frame.length_cutLine_le input
        simp only [stepsLeft, List.length_cons]
        omega
      · simp at h
    · simp only [Option.some.injEq] at h
      subst h
      simp only [stepsLeft, List.length_cons]
      omega
    · simp only [Option.some.injEq] at h
      subst h
      simp only [stepsLeft, List.length_cons]
      omega
    · split at h
      · simp at h
      · rename_i hi
        simp only [Option.some.injEq] at h
        subst h
        have : 0 < input.length := List.length_pos_iff.2 (by simpa using hi)
        simp only [stepsLeft, List.length_nil]
        omega

end Worker

end TypedLoader
