import Mathlib.Logic.Relation
import TypedLoader.Checker.Connection
import TypedLoader.Proofs.Checker.Sender

namespace TypedLoader

open Relation (ReflTransGen)

variable {α : Type}

namespace Sender

inductive Event (α : Type) where
  | send (frame : α)
  | receive
  | drained

def Event.frames : Event α → List α
  | send frame => [frame]
  | receive => []
  | drained => []

theorem Holds.taken {s : Sender α} {frames : List α} (h : s.Holds frames) :
    ∃ rest, s.receive.1.toList ++ rest = frames ∧ s.receive.2.Holds rest := by
  cases hf : s.channel.frames with
  | nil =>
    have hr : s.receive = (none, s) := by rw [Sender.receive, Channel.receive, hf]
    rw [hr]
    exact ⟨frames, rfl, h⟩
  | cons frame later =>
    obtain ⟨t, hr⟩ : ∃ t, s.receive = (some frame, t) := by
      rw [Sender.receive, Channel.receive, hf]
      exact ⟨_, rfl⟩
    obtain ⟨rest, rfl, ht⟩ := h.receive hr
    rw [hr]
    exact ⟨rest, rfl, ht⟩

end Sender

/-- A sender, with what it answered to every frame and what has been taken out,
oldest first. -/
structure Delivery (α : Type) where
  sender : Sender α
  answers : List (Except CheckError Unit) := []
  received : List α := []

namespace Delivery

def apply (d : Delivery α) : Sender.Event α → Delivery α
  | .send frame =>
    { d with sender := (d.sender.send frame).2, answers := d.answers ++ [(d.sender.send frame).1] }
  | .receive =>
    { d with sender := d.sender.receive.2, received := d.received ++ d.sender.receive.1.toList }
  | .drained => { d with sender := d.sender.drained }

def after (policy : SendPolicy) (capacity : Nat) (events : List (Sender.Event α)) : Delivery α :=
  events.foldl apply { sender := Sender.make policy capacity }

/-- What has been sent was accepted, and has been taken out or is held by the
sender. -/
structure Tracks (d : Delivery α) (sent : List α) : Prop where
  answers : d.answers = sent.map fun _ ↦ .ok ()
  held : ∃ rest, d.received ++ rest = sent ∧ d.sender.Holds rest

theorem Tracks.apply {d : Delivery α} {sent : List α} (h : d.Tracks sent) (e : Sender.Event α) :
    (d.apply e).Tracks (sent ++ e.frames) := by
  obtain ⟨hanswers, rest, rfl, hrest⟩ := h
  cases e with
  | send frame =>
    obtain ⟨t, hsend, ht⟩ := hrest.send frame
    rw [Delivery.apply, hsend]
    refine ⟨?_, rest ++ [frame], ?_, ht⟩
    · simp only [hanswers, Sender.Event.frames, List.map_append, List.map_cons, List.map_nil,
        List.append_assoc]
    · simp [Sender.Event.frames]
  | receive =>
    obtain ⟨later, rfl, ht⟩ := hrest.taken
    rw [Sender.Event.frames, List.append_nil]
    exact ⟨hanswers, later, List.append_assoc .., ht⟩
  | drained =>
    rw [Sender.Event.frames, List.append_nil]
    exact ⟨hanswers, rest, rfl, hrest.drained⟩

theorem Tracks.foldl {d : Delivery α} {sent : List α} (h : d.Tracks sent)
    (events : List (Sender.Event α)) :
    (events.foldl Delivery.apply d).Tracks (sent ++ events.flatMap Sender.Event.frames) := by
  induction events generalizing d sent with
  | nil => simpa using h
  | cons e events ih =>
    rw [List.foldl_cons, List.flatMap_cons, ← List.append_assoc]
    exact ih (h.apply e)

/-- Whatever happens to a sender whose receiver stays, in whatever order, every
frame is accepted; those taken out, those in the channel and those in the queue
are together the frames sent, in their order; and a free sender queues nothing. -/
theorem frames_in_order (policy : SendPolicy) (capacity : Nat) (events : List (Sender.Event α)) :
    let d := after policy capacity events
    let sent := events.flatMap Sender.Event.frames
    d.answers = sent.map (fun _ ↦ .ok ()) ∧
      d.received ++ d.sender.channel.frames ++ d.sender.queue = sent ∧
      (d.sender.free = true → d.sender.queue = []) := by
  intro d sent
  have hstart : Tracks { sender := (Sender.make policy capacity : Sender α) } [] :=
    ⟨rfl, [], rfl, Sender.holds_make policy capacity⟩
  obtain ⟨hanswers, rest, hsent, hrest⟩ := hstart.foldl events
  refine ⟨hanswers, ?_, hrest.free⟩
  calc d.received ++ d.sender.channel.frames ++ d.sender.queue
      = d.received ++ (d.sender.channel.frames ++ d.sender.queue) := List.append_assoc ..
    _ = d.received ++ rest := congrArg (d.received ++ ·) hrest.frames_eq
    _ = sent := hsent

/-- A channel without room takes nothing, also when the receiver asks for more. -/
example : (after .direct 0 [.send 1, .receive, .drained, .send 2]).sender.queue = [1, 2] := rfl

end Delivery

/-- A sender and its writer. The writer takes out a frame, passes it on, and
tells the sender before it takes out another one. -/
structure Relay (α : Type) where
  sender : Sender α
  held : Bool := false
  accepted : List α := []
  received : List α := []

namespace Relay

def start (policy : SendPolicy) (capacity : Nat) : Relay α :=
  { sender := Sender.make policy capacity }

def send (r : Relay α) (frame : α) : Relay α :=
  match r.sender.send frame with
  | (.ok (), sender) => { r with sender, accepted := r.accepted ++ [frame] }
  | (.error _, sender) => { r with sender }

def write? (r : Relay α) : Option (Relay α) :=
  if r.held then some { r with sender := r.sender.drained, held := false }
  else
    match r.sender.receive with
    | (none, _) => none
    | (some frame, sender) =>
      some { r with sender, held := true, received := r.received ++ [frame] }

/-- Frames may be sent at any time, also between a frame that is taken out and
the report of it. -/
inductive Step : Relay α → Relay α → Prop
  | send (r : Relay α) (frame : α) : Step r (r.send frame)
  | write {r t : Relay α} (h : r.write? = some t) : Step r t

def Reachable (policy : SendPolicy) (capacity : Nat) : Relay α → Prop :=
  ReflTransGen Step (start policy capacity)

/-- What is accepted has been taken out or is held by the sender, which will hear
from the writer unless it is free. -/
structure Sound (r : Relay α) : Prop where
  held : ∃ rest, r.received ++ rest = r.accepted ∧ r.sender.Holds rest
  awake : r.sender.Awake r.held

theorem sound_start (policy : SendPolicy) {capacity : Nat} (h : 0 < capacity) :
    (start policy capacity : Relay α).Sound :=
  ⟨⟨[], rfl, Sender.holds_make policy capacity⟩, Sender.awake_make policy h⟩

section Steps

variable {r t : Relay α}

theorem Sound.send (h : r.Sound) (frame : α) : (r.send frame).Sound := by
  obtain ⟨⟨rest, hrest, hs⟩, ha⟩ := h
  obtain ⟨t, hsend, ht⟩ := hs.send frame
  have hawake := ha.send frame
  rw [hsend] at hawake
  rw [Relay.send, hsend]
  refine ⟨⟨rest ++ [frame], ?_, ht⟩, hawake⟩
  rw [← List.append_assoc, hrest]

/-- The writer reports the frame that it holds, or takes the oldest one out. -/
theorem write?_cases (h : r.write? = some t) :
    r.held = true ∧ t = { r with sender := r.sender.drained, held := false } ∨
      r.held = false ∧ ∃ frame sender, r.sender.receive = (some frame, sender) ∧
        t = { r with sender, held := true, received := r.received ++ [frame] } := by
  unfold write? at h
  split at h
  · rename_i hheld
    exact Or.inl ⟨hheld, (Option.some.inj h).symm⟩
  · rename_i hheld
    split at h
    · cases h
    · rename_i frame sender hr
      exact Or.inr ⟨by simpa using hheld, frame, sender, hr, (Option.some.inj h).symm⟩

theorem Sound.write (h : r.Sound) (hw : r.write? = some t) : t.Sound := by
  obtain ⟨⟨rest, hrest, hs⟩, ha⟩ := h
  rcases write?_cases hw with ⟨hheld, rfl⟩ | ⟨hheld, frame, sender, hr, rfl⟩
  · exact ⟨⟨rest, hrest, hs.drained⟩, ha.drained hs.connected⟩
  · obtain ⟨later, rfl, ht⟩ := hs.receive hr
    refine ⟨⟨later, ?_, ht⟩, ha.receive hr⟩
    rw [← hrest, List.append_assoc]
    rfl

theorem Sound.step (h : r.Sound) (hs : Step r t) : t.Sound := by
  cases hs with
  | send frame => exact h.send frame
  | write hw => exact h.write hw

theorem Reachable.sound {policy : SendPolicy} {capacity : Nat} (hc : 0 < capacity)
    (h : Reachable policy capacity r) : r.Sound := by
  induction h with
  | refl => exact sound_start policy hc
  | tail _ hs ih => exact ih.step hs

end Steps

/-- Frames that the writer has not taken out count twice, one that it holds once. -/
def toWrite (r : Relay α) : Nat :=
  2 * (r.sender.channel.frames.length + r.sender.queue.length) + r.held.toNat

theorem write_lt {r t : Relay α} (h : r.write? = some t) : t.toWrite < r.toWrite := by
  rcases write?_cases h with ⟨hheld, rfl⟩ | ⟨hheld, frame, sender, hr, rfl⟩
  · have hflush := Connection.length_flush r.sender r.sender.queue
    simp only [toWrite, Sender.drained, hheld, Bool.toNat_true, Bool.toNat_false]
    omega
  · unfold Sender.receive Channel.receive at hr
    cases hf : r.sender.channel.frames with
    | nil =>
      rw [hf] at hr
      cases hr
    | cons first rest =>
      rw [hf] at hr
      obtain ⟨-, rfl⟩ := Prod.mk.inj hr
      simp only [toWrite, hheld, hf, List.length_cons, Bool.toNat_true, Bool.toNat_false]
      omega

def writeAll (r : Relay α) : Relay α := exhaust write? toWrite write_lt r

theorem accepted_of_write? {r t : Relay α} (h : r.write? = some t) : t.accepted = r.accepted := by
  rcases write?_cases h with ⟨-, rfl⟩ | ⟨-, _, _, -, rfl⟩ <;> rfl

theorem Sound.at_rest {r : Relay α} (h : r.Sound) (hn : r.write? = none) :
    r.received = r.accepted ∧ r.sender.free = true ∧ r.sender.queue = [] := by
  obtain ⟨⟨rest, hrest, hs⟩, ha⟩ := h
  unfold write? at hn
  split at hn
  · cases hn
  · rename_i hheld
    have hheld : r.held = false := by simpa using hheld
    have hframes : r.sender.channel.frames = [] := by
      unfold Sender.receive Channel.receive at hn
      cases hf : r.sender.channel.frames with
      | nil => rfl
      | cons frame later =>
        rw [hf] at hn
        cases hn
    have hfree : r.sender.free = true := by
      rcases ha.alert with hf | hf | hf
      · exact hf
      · exact absurd hframes hf
      · exact absurd (hheld.symm.trans hf) (by decide)
    have hqueue := hs.free hfree
    refine ⟨?_, hfree, hqueue⟩
    rw [← hrest, ← hs.frames_eq, hframes, hqueue]
    simp

theorem Sound.writeAll {r : Relay α} (h : r.Sound) :
    r.writeAll.received = r.accepted ∧ r.writeAll.sender.free = true ∧
      r.writeAll.sender.queue = [] := by
  have hend : r.writeAll.Sound ∧ r.writeAll.accepted = r.accepted :=
    exhaust_invariant (p := fun t : Relay α ↦ t.Sound ∧ t.accepted = r.accepted) write? toWrite
      write_lt (fun hw ht ↦ ⟨ht.1.write hw, (accepted_of_write? hw).trans ht.2⟩) r ⟨h, rfl⟩
  obtain ⟨hreceived, hfree, hqueue⟩ := hend.1.at_rest (step_exhaust ..)
  exact ⟨hreceived.trans hend.2, hfree, hqueue⟩

end Relay

namespace Sender

variable {s : Sender α}

theorem send_conservative (hp : s.policy = .conservative) (frame : α) :
    let t := (s.send frame).2
    t.policy = .conservative ∧
      (t.channel.frames = s.channel.frames ∧ (t.free = true → s.free = true) ∨
        s.free = true ∧ t.channel.frames = s.channel.frames ++ [frame] ∧ t.free = false) := by
  unfold Sender.send
  cases hfree : s.free with
  | false => exact ⟨hp, Or.inl ⟨rfl, fun ht ↦ absurd ht Bool.false_ne_true⟩⟩
  | true =>
    simp only [Bool.not_true, Bool.false_eq_true, if_false]
    split
    · exact ⟨hp, Or.inl ⟨rfl, fun _ ↦ trivial⟩⟩
    · split
      · exact ⟨hp, Or.inr ⟨trivial, rfl, by rw [hp]; rfl⟩⟩
      · exact ⟨hp, Or.inl ⟨rfl, fun _ ↦ trivial⟩⟩

theorem flush_conservative (hp : s.policy = .conservative) (hfree : s.free = false)
    (queue : List α) : let t := s.flush queue
    t.policy = .conservative ∧ (t.channel.frames = s.channel.frames ∨
      (∃ frame, t.channel.frames = s.channel.frames ++ [frame]) ∧ t.free = false) := by
  unfold flush
  split
  · exact ⟨hp, Or.inl rfl⟩
  · rename_i frame rest
    split
    · exact ⟨hp, Or.inl rfl⟩
    · split
      · simp only [hp, if_true]
        exact ⟨trivial, Or.inr ⟨⟨frame, rfl⟩, hfree⟩⟩
      · exact ⟨hp, Or.inl rfl⟩

end Sender

namespace Relay

def underWay (r : Relay α) : Nat := r.sender.channel.frames.length + r.held.toNat

/-- A conservative sender that is free has nothing under way, and otherwise one
frame at most. -/
structure Single (r : Relay α) : Prop where
  policy : r.sender.policy = .conservative
  atMost : r.underWay ≤ 1
  free : r.sender.free = true → r.underWay = 0

theorem single_start (capacity : Nat) : (start .conservative capacity : Relay α).Single :=
  ⟨rfl, Nat.zero_le _, fun _ ↦ rfl⟩

section Steps

variable {r t : Relay α}

theorem sender_send (r : Relay α) (frame : α) :
    (r.send frame).sender = (r.sender.send frame).2 ∧ (r.send frame).held = r.held := by
  rw [send]
  rcases r.sender.send frame with ⟨_ | _, sender⟩ <;> exact ⟨rfl, rfl⟩

theorem Single.send (h : r.Single) (frame : α) : (r.send frame).Single := by
  obtain ⟨hsender, hheld⟩ := sender_send r frame
  obtain ⟨hpolicy, hframes⟩ := Sender.send_conservative h.policy frame
  have hcount : (r.send frame).underWay =
      (r.sender.send frame).2.channel.frames.length + r.held.toNat := by
    rw [underWay, hsender, hheld]
  rcases hframes with ⟨hsame, hfree⟩ | ⟨hfree, hpush, hbusy⟩
  · have hsame : (r.send frame).underWay = r.underWay := by rw [hcount, hsame, underWay]
    exact ⟨hsender ▸ hpolicy, hsame ▸ h.atMost, fun ht ↦ hsame ▸ h.free (hfree (hsender ▸ ht))⟩
  · have hone : (r.send frame).underWay = 1 := by
      have hnone := h.free hfree
      rw [underWay] at hnone
      rw [hcount, hpush, List.length_append, List.length_singleton]
      omega
    refine ⟨hsender ▸ hpolicy, Nat.le_of_eq hone, fun ht ↦ ?_⟩
    rw [hsender, hbusy] at ht
    cases ht

theorem Single.write (h : r.Single) (hw : r.write? = some t) : t.Single := by
  obtain ⟨hpolicy, hmost, hnone⟩ := h
  rcases write?_cases hw with ⟨hheld, rfl⟩ | ⟨hheld, frame, sender, hr, rfl⟩
  · simp only [underWay, hheld, Bool.toNat_true] at hmost hnone
    have hframes : r.sender.channel.frames = [] := List.length_eq_zero_iff.1 (by omega)
    have hfree : r.sender.free = false := by
      cases hf : r.sender.free with
      | false => rfl
      | true => exact absurd (hnone hf) (by omega)
    obtain ⟨hpolicy, hflush⟩ := Sender.flush_conservative hpolicy hfree r.sender.queue
    rw [hframes] at hflush
    refine ⟨hpolicy, ?_, fun ht ↦ ?_⟩
    · rcases hflush with hf | ⟨⟨frame, hf⟩, -⟩ <;> simp [underWay, Sender.drained, hf]
    · rcases hflush with hf | ⟨-, hbusy⟩
      · simp [underWay, Sender.drained, hf]
      · exact absurd (hbusy.symm.trans ht) (by decide)
  · unfold Sender.receive Channel.receive at hr
    cases hf : r.sender.channel.frames with
    | nil =>
      rw [hf] at hr
      cases hr
    | cons first rest =>
      rw [hf] at hr
      obtain ⟨-, rfl⟩ := Prod.mk.inj hr
      simp only [underWay, hheld, hf, List.length_cons, Bool.toNat_false] at hmost hnone
      refine ⟨hpolicy, ?_, fun ht ↦ ?_⟩
      · simp only [underWay, Bool.toNat_true]
        omega
      · exact absurd (hnone ht) (by omega)

theorem Single.step (h : r.Single) (hs : Step r t) : t.Single := by
  cases hs with
  | send frame => exact h.send frame
  | write hw => exact h.write hw

theorem Reachable.single {capacity : Nat} (h : Reachable .conservative capacity r) : r.Single := by
  induction h with
  | refl => exact single_start capacity
  | tail _ hs ih => exact ih.step hs

end Steps

/-- A sender that is not free has a frame in the channel or with the writer, which
is still to report it. So the writer alone brings every accepted frame out, and
leaves the sender free with nothing queued. A conservative sender has one frame
under way at most. -/
theorem no_lost_report {policy : SendPolicy} {capacity : Nat} (hc : 0 < capacity) {r : Relay α}
    (h : Reachable policy capacity r) :
    (r.sender.free = false → r.sender.channel.frames ≠ [] ∨ r.held = true) ∧
      (r.writeAll.received = r.accepted ∧ r.writeAll.sender.free = true ∧
        r.writeAll.sender.queue = []) ∧
      (policy = .conservative → r.sender.channel.frames.length + r.held.toNat ≤ 1) := by
  have hsound := h.sound hc
  refine ⟨fun hf ↦ ?_, hsound.writeAll, ?_⟩
  · rcases hsound.awake.alert with hfree | halert
    · exact absurd (hf.symm.trans hfree) (by decide)
    · exact halert
  · rintro rfl
    exact h.single.atMost

/-- Two frames for a channel with room for one, after the writer has taken out the
first. The channel is empty, and the sender still waits for the report. -/
def unreported : Relay Nat where
  sender := { policy := .direct, channel := { capacity := 1 }, free := false, queue := [2] }
  held := true
  accepted := [1, 2]
  received := [1]

theorem reachable_unreported : Reachable .direct 1 unreported :=
  ((ReflTransGen.refl.tail (.send _ 1)).tail (.send _ 2)).tail (.write rfl)

theorem no_lost_report_of_unreported : unreported.sender.free = false ∧
    (unreported.sender.channel.frames ≠ [] ∨ unreported.held = true) ∧
    unreported.writeAll.received = [1, 2] ∧ unreported.writeAll.sender.free = true := by
  obtain ⟨halert, ⟨hreceived, hfree, -⟩, -⟩ := no_lost_report (by decide) reachable_unreported
  exact ⟨rfl, halert rfl, hreceived, hfree⟩

end Relay

/-- The writer of a connection is such a writer while the worker takes its input. -/
theorem Connection.write?_eq_relay {c : Connection} (h : c.worker.hasEnded = false) :
    c.write? = (Relay.write? ⟨c.sender, c.held, [], []⟩).map fun r ↦
      { c with sender := r.sender, held := r.held, input := c.input ++ r.received.flatten } := by
  rw [write?, Relay.write?]
  cases c.held with
  | true => simp
  | false =>
    simp only [Bool.false_eq_true, if_false, h]
    rcases c.sender.receive with ⟨_ | frame, sender⟩ <;> simp

end TypedLoader
