namespace TypedLoader

/-- Times are in milliseconds; `changed` is the time of the last change that no run has covered. A
flag for such a change beside the time of the last one would tell nothing more, by
`history_eq_flagged`. -/
structure Debouncer where
  window : Nat
  changed : Option Nat := none
  inFlight : Bool := false
deriving Inhabited

namespace Debouncer

def notify (d : Debouncer) (now : Nat) : Debouncer := { d with changed := some now }

def deadline (d : Debouncer) : Option Nat := d.changed.map (· + d.window)

def tryStart (d : Debouncer) (now : Nat) : Bool × Debouncer :=
  match d.deadline with
  | none => (false, d)
  | some due =>
    if d.inFlight || now < due then (false, d)
    else (true, { d with changed := none, inFlight := true })

def finish (d : Debouncer) : Bool × Debouncer :=
  (d.changed.isSome, { d with inFlight := false })

end Debouncer

end TypedLoader
