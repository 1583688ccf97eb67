import TypedLoader.Checker.Sender

namespace TypedLoader.Sender

variable {α : Type}

/-- The frames sent and not taken out yet, oldest first. A sender is free only
while it queues nothing. -/
structure Holds (s : Sender α) (frames : List α) : Prop where
  connected : s.channel.connected = true
  frames_eq : s.channel.frames ++ s.queue = frames
  free : s.free = true → s.queue = []

theorem holds_make (policy : SendPolicy) (capacity : Nat) :
    (make policy capacity : Sender α).Holds [] :=
  ⟨rfl, rfl, fun _ ↦ rfl⟩

theorem Holds.send {s : Sender α} {frames : List α} (h : s.Holds frames) (frame : α) :
    ∃ t, s.send frame = (.ok (), t) ∧ t.Holds (frames ++ [frame]) := by
  obtain ⟨hc, rfl, hf⟩ := h
  unfold Sender.send
  cases hfree : s.free with
  | false =>
    refine ⟨_, rfl, hc, ?_, fun ht ↦ absurd ht Bool.false_ne_true⟩
    exact (List.append_assoc ..).symm
  | true =>
    have hq := hf hfree
    rw [hc]
    cases hr : s.channel.hasRoom with
    | true =>
      refine ⟨_, rfl, hc, ?_, fun _ ↦ hq⟩
      simp only [Channel.push, hq, List.append_nil]
    | false =>
      refine ⟨_, rfl, hc, ?_, fun ht ↦ absurd ht Bool.false_ne_true⟩
      simp only [hq, List.append_nil, List.nil_append]

theorem holds_flush {s : Sender α} (hc : s.channel.connected = true) (queue : List α)
    (hf : s.free = true → queue = []) : (s.flush queue).Holds (s.channel.frames ++ queue) := by
  induction queue generalizing s with
  | nil => exact ⟨hc, rfl, fun _ ↦ rfl⟩
  | cons frame rest ih =>
    have hfree : s.free = false := by
      cases hs : s.free with
      | false => rfl
      | true => exact absurd (hf hs) (List.cons_ne_nil _ _)
    have hstuck {queue : List α} (ht : s.free = true) : queue = [] :=
      absurd (hfree.symm.trans ht) (by decide)
    rw [flush, hc]
    cases hr : s.channel.hasRoom with
    | true =>
      have hp : (s.channel.push frame).frames ++ rest = s.channel.frames ++ frame :: rest := by
        simp [Channel.push]
      rw [← hp]
      simp only [Bool.not_true, Bool.false_eq_true, if_false, if_true]
      split
      · exact ⟨hc, rfl, hstuck⟩
      · have hc' : ({ s with channel := s.channel.push frame }).channel.connected = true := hc
        exact ih hc' hstuck
    | false => exact ⟨hc, rfl, hstuck⟩

theorem Holds.drained {s : Sender α} {frames : List α} (h : s.Holds frames) :
    s.drained.Holds frames := by
  obtain ⟨hc, rfl, hf⟩ := h
  exact holds_flush hc s.queue hf

theorem Holds.receive {s t : Sender α} {frames : List α} {frame : α} (h : s.Holds frames)
    (hr : s.receive = (some frame, t)) : ∃ rest, frames = frame :: rest ∧ t.Holds rest := by
  obtain ⟨hc, rfl, hf⟩ := h
  unfold Sender.receive Channel.receive at hr
  cases hs : s.channel.frames with
  | nil => simp [hs] at hr
  | cons first rest =>
    simp only [hs, Prod.mk.injEq, Option.some.injEq] at hr
    obtain ⟨rfl, rfl⟩ := hr
    exact ⟨rest ++ s.queue, rfl, hc, rfl, hf⟩

/-- A sender that is not free has a frame on its way; the receiver will say when
it has taken that one out. -/
structure Awake (s : Sender α) (held : Bool) : Prop where
  room : 0 < s.channel.capacity
  alert : s.free = true ∨ s.channel.frames ≠ [] ∨ held = true

theorem awake_make (policy : SendPolicy) {capacity : Nat} (h : 0 < capacity) :
    (make policy capacity : Sender α).Awake false :=
  ⟨h, Or.inl rfl⟩

theorem frames_ne_nil_of_full {c : Channel α} (hr : 0 < c.capacity) (hf : c.hasRoom = false) :
    c.frames ≠ [] := by
  intro he
  rw [Channel.hasRoom, he, decide_eq_false_iff_not] at hf
  exact hf hr

theorem Awake.send {s : Sender α} {held : Bool} (h : s.Awake held) (frame : α) :
    (s.send frame).2.Awake held := by
  obtain ⟨hr, ha⟩ := h
  unfold Sender.send
  split
  · exact ⟨hr, ha⟩
  · split
    · exact ⟨hr, ha⟩
    · split
      · exact ⟨hr, Or.inr (Or.inl (List.append_ne_nil_of_right_ne_nil _ (List.cons_ne_nil _ _)))⟩
      · rename_i hfull
        exact ⟨hr, Or.inr (Or.inl (frames_ne_nil_of_full hr (by simpa using hfull)))⟩

theorem awake_flush {s : Sender α} (hc : s.channel.connected = true)
    (hr : 0 < s.channel.capacity) (queue : List α) : (s.flush queue).Awake false := by
  induction queue generalizing s with
  | nil => exact ⟨hr, Or.inl rfl⟩
  | cons frame rest ih =>
    rw [flush, hc]
    cases hf : s.channel.hasRoom with
    | true =>
      simp only [Bool.not_true, Bool.false_eq_true, if_false, if_true]
      split
      · exact ⟨hr, Or.inr (Or.inl (List.append_ne_nil_of_right_ne_nil _ (List.cons_ne_nil _ _)))⟩
      · have hc' : ({ s with channel := s.channel.push frame }).channel.connected = true := hc
        exact ih hc' hr
    | false => exact ⟨hr, Or.inr (Or.inl (frames_ne_nil_of_full hr hf))⟩

theorem Awake.drained {s : Sender α} {held : Bool} (h : s.Awake held)
    (hc : s.channel.connected = true) : s.drained.Awake false :=
  awake_flush hc h.room s.queue

theorem Awake.receive {s t : Sender α} {held : Bool} {frame : α} (h : s.Awake held)
    (hr : s.receive = (some frame, t)) : t.Awake true := by
  unfold Sender.receive Channel.receive at hr
  cases hs : s.channel.frames with
  | nil => simp [hs] at hr
  | cons first rest =>
    simp only [hs, Prod.mk.injEq, Option.some.injEq] at hr
    obtain ⟨rfl, rfl⟩ := hr
    exact ⟨h.room, Or.inr (Or.inr rfl)⟩

theorem Awake.queue_eq_nil {s : Sender α} {frames : List α} (h : s.Awake false)
    (hs : s.Holds frames) (he : s.channel.frames = []) : s.queue = [] := by
  rcases h.alert with hf | hf | hf
  · exact hs.free hf
  · exact absurd he hf
  · cases hf

end TypedLoader.Sender
