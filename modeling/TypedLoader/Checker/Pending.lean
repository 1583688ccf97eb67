import TypedLoader.Checker.Response

namespace TypedLoader

abbrev Reply := Except CheckError Json

structure Pending where
  alive : Bool := true
  waiting : List Nat := []
  arrived : List (Nat × Reply) := []
deriving Inhabited

namespace Pending

def register (p : Pending) (seq : Nat) : Pending := { p with waiting := p.waiting ++ [seq] }

def resolve (p : Pending) (seq : Nat) (reply : Reply) : Pending :=
  if p.waiting.contains seq then
    { p with waiting := p.waiting.erase seq, arrived := p.arrived ++ [(seq, reply)] }
  else p

/-- Delivers a message of the worker. It is dropped if it is no response, or if
no request waits for it. -/
def route (p : Pending) (message : String) : Pending :=
  match Response.ofText? message with
  | some response => p.resolve response.seq response.result
  | none => p

def markGone (p : Pending) : Pending := { p with alive := false }

def reject (p : Pending) (seqs : List Nat) : Pending :=
  seqs.foldl (fun p seq ↦ p.resolve seq (.error .exited)) p

def close (p : Pending) : Pending := p.markGone.reject p.waiting

def reply? (p : Pending) (seq : Nat) : Option Reply := p.arrived.lookup seq

theorem alive_resolve (p : Pending) (seq : Nat) (reply : Reply) :
    (p.resolve seq reply).alive = p.alive := by
  unfold resolve
  split <;> rfl

theorem waiting_resolve (p : Pending) (seq : Nat) (reply : Reply) :
    (p.resolve seq reply).waiting = p.waiting.erase seq := by
  unfold resolve
  split
  · rfl
  · rename_i h
    exact (List.erase_of_not_mem (by simpa using h)).symm

theorem waiting_reject {p : Pending} {seqs : List Nat} (h : p.waiting = seqs) :
    (p.reject seqs).waiting = [] := by
  induction seqs generalizing p with
  | nil => exact h
  | cons seq seqs ih =>
    refine ih (p := p.resolve seq (.error .exited)) ?_
    rw [waiting_resolve, h, List.erase_cons_head]

theorem waiting_close (p : Pending) : p.close.waiting = [] := waiting_reject rfl

end Pending

end TypedLoader
