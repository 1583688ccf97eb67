import TypedLoader.Checker.Connection
import TypedLoader.Checker.Launch

namespace TypedLoader

structure Promise (α : Type) where
  seq : Nat
  read? : Json → Option α

def Promise.result {α : Type} (p : Promise α) : Reply → Except CheckError α
  | .error e => .error e
  | .ok payload =>
    match p.read? payload with
    | some x => .ok x
    | none => .error .malformed

/-- The loader's end of the checker protocol. A request gives a promise at once, whose reply is
looked up when it is needed. A worker that has gone can be replaced by another one. -/
structure Client where
  connector : Connector
  policy : SendPolicy
  connection : Connection
  nextSeq : Nat := 1
  setup : Option Setup := none
  retired : List Connection := []

namespace Client

variable {α : Type}

abbrev Act (α : Type) := Action Client CheckError α

def alive (c : Client) : Bool := c.connection.pending.alive

def waiting (c : Client) : Nat := c.connection.pending.waiting.length

def reply? (c : Client) (seq : Nat) : Option Reply :=
  (c.connection :: c.retired).findSome? fun k ↦ k.pending.reply? seq

def settle (w : Workers) : Act Unit := fun c ↦
  let (connection, calls) := c.connection.settle w
  ⟨.ok (), { c with connection }, calls⟩

def start (connector : Connector) (policy : SendPolicy) (n : Nat) : Except CheckError Client :=
  (connector n).map fun worker ↦
    { connector, policy, connection := Connection.make policy worker }

def request (c : Client) (r : Request) : Nat × Client :=
  (c.nextSeq, { c with
    connection := c.connection.request c.nextSeq r
    nextSeq := c.nextSeq + 1 })

def ask (w : Workers) (r : Request) (read? : Json → Option α) : Act (Promise α) := do
  let seq ← Action.update fun c ↦ c.request r
  settle w
  pure ⟨seq, read?⟩

/-- The content of a reply. One that can never arrive counts as a worker that
has gone. -/
def await (p : Promise α) : Act α := do
  let c ← Action.get
  Action.ofExcept (p.result ((c.reply? p.seq).getD (.error .exited)))

def done? (j : Json) : Option Unit := if j.isNull then some () else none

def init (w : Workers) (setup : Setup) : Act (Promise Unit) := do
  Action.modify fun c ↦ { c with setup := some setup }
  ask w (.init setup) done?

def updateFile (w : Workers) (file : Path) (text : String) (onlyKnown : Bool) :
    Act (Promise Unit) :=
  ask w (.updateFile file text onlyKnown) done?

def removeFile (w : Workers) (file : Path) : Act (Promise Unit) := ask w (.removeFile file) done?

def emitFile (w : Workers) (file : Path) (text : String) : Act (Promise EmitReply) :=
  ask w (.emitFile file text) EmitReply.ofJson?

def registerFile (w : Workers) (file : Path) (text : String) : Act (Promise FileDeps) :=
  ask w (.registerFile file text) FileDeps.ofJson?

def diagnostics (w : Workers) : Act (Promise (List Report)) :=
  ask w .diagnostics (Json.list? Report.ofJson?)

def files (w : Workers) : Act (Promise (List Path)) := ask w .files FileDeps.pathList?

def connect (worker : Worker) (c : Client) : Client :=
  { c with
    connection := Connection.make c.policy worker
    retired := c.connection :: c.retired }

/-- Gives the worker up, rejects everything outstanding, and goes on with a new
worker, if one starts. It is set up like the old one. -/
def reset (w : Workers) (n : Nat) : Act Unit := do
  Action.modify fun c ↦ { c with connection := c.connection.shutDown }
  let c ← Action.get
  let worker ← Action.ofExcept (c.connector n)
  Action.modify (connect worker)
  settle w
  match c.setup with
  | none => pure ()
  | some setup => await (← ask w (.init setup) done?)

end Client

end TypedLoader
