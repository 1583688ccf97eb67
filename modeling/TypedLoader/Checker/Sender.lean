import TypedLoader.Checker.Error

namespace TypedLoader

/-- A direct sender fills the channel, a conservative one has at most one frame on its way. -/
inductive SendPolicy where
  | direct
  | conservative
deriving DecidableEq, Inhabited

def SendPolicy.names : List (String × SendPolicy) :=
  [("direct", direct), ("conservative", conservative)]

def SendPolicy.name : SendPolicy → String
  | direct => "direct"
  | conservative => "conservative"

structure Channel (α : Type) where
  capacity : Nat
  frames : List α := []
  connected : Bool := true

namespace Channel

variable {α : Type}

def hasRoom (c : Channel α) : Bool := c.frames.length < c.capacity

def push (c : Channel α) (frame : α) : Channel α := { c with frames := c.frames ++ [frame] }

def receive (c : Channel α) : Option α × Channel α :=
  match c.frames with
  | [] => (none, c)
  | frame :: rest => (some frame, { c with frames := rest })

def disconnect (c : Channel α) : Channel α := { c with frames := [], connected := false }

end Channel

/-- A sender that is not free queues every frame, until it hears that the receiver has taken
something out. -/
structure Sender (α : Type) where
  policy : SendPolicy
  channel : Channel α
  free : Bool := true
  queue : List α := []

namespace Sender

variable {α : Type}

def make (policy : SendPolicy) (capacity : Nat) : Sender α := { policy, channel := { capacity } }

def send (s : Sender α) (frame : α) : Except CheckError Unit × Sender α :=
  if !s.free then (.ok (), { s with queue := s.queue ++ [frame] })
  else if !s.channel.connected then (.error .exited, s)
  else if s.channel.hasRoom then
    (.ok (), { s with channel := s.channel.push frame, free := s.policy == .direct })
  else (.ok (), { s with free := false, queue := s.queue ++ [frame] })

def flush (s : Sender α) : List α → Sender α
  | [] => { s with queue := [], free := true }
  | frame :: rest =>
    if !s.channel.connected then { s with queue := [] }
    else if s.channel.hasRoom then
      let s := { s with channel := s.channel.push frame }
      if s.policy = .conservative then { s with queue := rest } else flush s rest
    else { s with queue := frame :: rest }

def drained (s : Sender α) : Sender α := s.flush s.queue

def receive (s : Sender α) : Option α × Sender α :=
  let (frame, channel) := s.channel.receive
  (frame, { s with channel })

def disconnect (s : Sender α) : Sender α := { s with channel := s.channel.disconnect }

end Sender

end TypedLoader
