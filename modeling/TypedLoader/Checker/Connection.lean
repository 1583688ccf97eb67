import TypedLoader.Checker.Pending
import TypedLoader.Checker.Sender
import TypedLoader.Checker.Worker
import TypedLoader.Exhaust

namespace TypedLoader

/-- One connection to a worker: requests pass through the sender and a writer into the worker's
input, and a reader takes responses from its output to the requests that wait. Writer, worker and
reader may take their steps in any order. -/
structure Connection where
  sender : Sender Bytes
  worker : Worker
  pending : Pending := {}
  /-- The writer has passed a frame on and has not told the sender yet. -/
  held : Bool := false
  input : Bytes := []
  output : Bytes := []
  /-- The reader stops at the end of the output, and where it is unreadable. -/
  reading : Bool := true

namespace Connection

def capacity : Nat := 16

def make (policy : SendPolicy) (worker : Worker) : Connection :=
  { sender := Sender.make policy capacity, worker }

def register (c : Connection) (seq : Nat) : Connection :=
  { c with pending := c.pending.register seq }

def send (c : Connection) (seq : Nat) (request : Request) : Connection :=
  let (sent, sender) := c.sender.send (Frame.encode (request.envelope seq).toJson.text)
  match sent with
  | .ok () => { c with sender }
  | .error e => { c with sender, pending := c.pending.resolve seq (.error e) }

/-- A request may have been sent when the others had been rejected already;
nothing else would reply to it. -/
def confirm (c : Connection) (seq : Nat) : Connection :=
  if c.pending.alive then c else { c with pending := c.pending.resolve seq (.error .exited) }

def request (c : Connection) (seq : Nat) (request : Request) : Connection :=
  ((c.register seq).send seq request).confirm seq

def shutDown (c : Connection) : Connection := { c with pending := c.pending.close }

/-- The writer passes on a frame, or tells the sender of the one it has passed
on. It stops when the worker takes no more input. -/
def write? (c : Connection) : Option Connection :=
  if c.held then some { c with sender := c.sender.drained, held := false }
  else
    match c.sender.receive with
    | (none, _) => none
    | (some frame, sender) =>
      if c.worker.hasEnded then
        some { c with sender := sender.disconnect, pending := c.pending.close }
      else some { c with sender, held := true, input := c.input ++ frame }

def work? (w : Workers) (c : Connection) : Option (Connection × List Call) :=
  (c.worker.step? w c.input).map fun t ↦
    ({ c with worker := t.worker, input := t.input, output := c.output ++ t.output }, t.calls)

def read? (c : Connection) : Option Connection :=
  if !c.reading then none
  else
    match Frame.next c.worker.hasEnded c.output with
    | .message text rest => some { c with output := rest, pending := c.pending.route text }
    | .unknown => none
    | _ => some { c with reading := false, pending := c.pending.close }

/-- Frames that have not been passed on count twice, one that is held once. -/
def toWrite (c : Connection) : Nat :=
  2 * (c.sender.channel.frames.length + c.sender.queue.length) + c.held.toNat

theorem length_flush {α : Type} (s : Sender α) (frames : List α) :
    (s.flush frames).channel.frames.length + (s.flush frames).queue.length ≤
      s.channel.frames.length + frames.length := by
  induction frames generalizing s with
  | nil => simp [Sender.flush]
  | cons frame rest ih =>
    unfold Sender.flush
    split
    · simp
    · split
      · simp only
        split
        · simp only [Channel.push, List.length_append, List.length_cons, List.length_nil]
          omega
        · refine Nat.le_trans (ih _) ?_
          simp only [Channel.push, List.length_append, List.length_cons, List.length_nil]
          omega
      · simp

theorem write_lt {c d : Connection} (h : c.write? = some d) : d.toWrite < c.toWrite := by
  unfold write? at h
  split at h
  · rename_i hh
    simp only [Option.some.injEq] at h
    subst h
    have := length_flush c.sender c.sender.queue
    simp only [toWrite, Sender.drained, hh, Bool.toNat_true, Bool.toNat_false]
    omega
  · rename_i hh
    have hh : c.held = false := by simpa using hh
    unfold Sender.receive Channel.receive at h
    cases hf : c.sender.channel.frames with
    | nil => simp [hf] at h
    | cons frame rest =>
      simp only [hf] at h
      split at h
      · simp only [Option.some.injEq] at h
        subst h
        simp only [toWrite, Sender.disconnect, Channel.disconnect, hh, hf, List.length_nil,
          List.length_cons]
        omega
      · simp only [Option.some.injEq] at h
        subst h
        simp only [toWrite, hh, hf, List.length_cons, Bool.toNat_true, Bool.toNat_false]
        omega

def writeAll (c : Connection) : Connection := exhaust write? toWrite write_lt c

def toWork (p : Connection × List Call) : Nat := p.1.input.length + p.1.worker.stepsLeft

def workOn? (w : Workers) (p : Connection × List Call) : Option (Connection × List Call) :=
  (p.1.work? w).map fun (c, calls) ↦ (c, p.2 ++ calls)

theorem workOn_lt {w : Workers} {p q : Connection × List Call} (h : workOn? w p = some q) :
    toWork q < toWork p := by
  unfold workOn? work? at h
  simp only [Option.map_map, Option.map_eq_some_iff, Function.comp] at h
  obtain ⟨t, ht, rfl⟩ := h
  exact Worker.step_lt ht

def workAll (w : Workers) (c : Connection) : Connection × List Call :=
  exhaust (workOn? w) toWork workOn_lt (c, [])

def toRead (c : Connection) : Nat := c.output.length + c.reading.toNat

theorem read_lt {c d : Connection} (h : c.read? = some d) : d.toRead < c.toRead := by
  unfold read? at h
  split at h
  · simp at h
  · rename_i hr
    have hr : c.reading = true := by simpa using hr
    split at h
    · rename_i text rest hn
      simp only [Option.some.injEq] at h
      subst h
      have := Frame.length_of_next hn
      simp only [toRead]
      omega
    · simp at h
    · simp only [Option.some.injEq] at h
      subst h
      simp [toRead, hr]

def readAll (c : Connection) : Connection := exhaust read? toRead read_lt c

/-- Takes steps until nothing moves. The worker never waits for the reader, nor
the writer for the worker. -/
def settle (w : Workers) (c : Connection) : Connection × List Call :=
  let (c, calls) := c.writeAll.workAll w
  (c.readAll, calls)

end Connection

end TypedLoader
