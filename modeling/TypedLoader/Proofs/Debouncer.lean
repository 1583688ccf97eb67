import Mathlib.Data.List.Induction
import TypedLoader.Debouncer

namespace TypedLoader.Debouncer

inductive Signal where
  | notify (now : Nat)
  | tryStart (now : Nat)
  | finish
  | deadline

inductive Event where
  | notified (now : Nat)
  | tried (now : Nat) (started : Bool)
  | finished (owed : Bool)
  | asked (due : Option Nat)

namespace Event

def signal : Event → Signal
  | notified now => .notify now
  | tried now _ => .tryStart now
  | finished _ => .finish
  | asked _ => .deadline

def change? : Event → Option Nat
  | notified now => some now
  | _ => none

def isChange (e : Event) : Prop := ∃ now, e = notified now

def isStart (e : Event) : Prop := ∃ now, e = tried now true

def isEnd (e : Event) : Prop := ∃ owed, e = finished owed

end Event

def Signal.run (d : Debouncer) : Signal → Event × Debouncer
  | notify now => (.notified now, d.notify now)
  | tryStart now =>
    let (started, d) := d.tryStart now
    (.tried now started, d)
  | finish =>
    let (owed, d) := d.finish
    (.finished owed, d)
  | deadline => (.asked d.deadline, d)

def history : Debouncer → List Signal → List Event
  | _, [] => []
  | d, s :: rest => (s.run d).1 :: history (s.run d).2 rest

/-- The last event of the first kind, if there is one, comes after the last of the second. -/
def Since (p q : Event → Prop) (log : List Event) : Prop :=
  ∃ before e after, log = before ++ e :: after ∧ p e ∧ ∀ x ∈ after, ¬q x

/-- Some change came after the last start. -/
def Waiting : List Event → Prop := Since Event.isChange Event.isStart

/-- The run that was started last has not ended. -/
def Running : List Event → Prop := Since Event.isStart Event.isEnd

def lastChange? (log : List Event) : Option Nat := (log.filterMap Event.change?).getLast?

section Since

variable {p q : Event → Prop} {log before between : List Event} {e x : Event}

theorem not_since_nil : ¬Since p q [] := by
  rintro ⟨before, e, after, hlog, -⟩
  exact List.append_ne_nil_of_right_ne_nil before (List.cons_ne_nil e after) hlog.symm

theorem since_concat : Since p q (log ++ [x]) ↔ p x ∨ ¬q x ∧ Since p q log := by
  constructor
  · rintro ⟨before, e, after, hlog, he, hafter⟩
    rcases List.eq_nil_or_concat after with rfl | ⟨after, last, rfl⟩
    · obtain ⟨-, hx⟩ := List.append_inj' hlog rfl
      exact Or.inl (List.head_eq_of_cons_eq hx ▸ he)
    · rw [List.concat_eq_append] at hlog hafter
      rw [← List.cons_append, ← List.append_assoc] at hlog
      obtain ⟨hfront, hx⟩ := List.append_inj' hlog rfl
      obtain rfl := List.head_eq_of_cons_eq hx
      refine Or.inr ⟨hafter _ (List.mem_append_right after List.mem_cons_self),
        before, e, after, hfront, he, fun y hy ↦ hafter y (List.mem_append_left _ hy)⟩
  · rintro (hx | ⟨hx, before, e, after, rfl, he, hafter⟩)
    · exact ⟨log, x, [], rfl, hx, fun _ hy ↦ absurd hy List.not_mem_nil⟩
    · refine ⟨before, e, after ++ [x], by simp, he, fun y hy ↦ ?_⟩
      rcases List.mem_append.1 hy with hy | hy
      · exact hafter y hy
      · exact List.mem_singleton.1 hy ▸ hx

theorem Since.mem_of_after (h : Since p q (before ++ e :: between)) (hq : q e) (hp : ¬p e) :
    ∃ x ∈ between, p x := by
  induction between using List.reverseRecOn with
  | nil =>
    rcases since_concat.1 h with he | ⟨he, -⟩
    · exact absurd he hp
    · exact absurd hq he
  | append_singleton between x ih =>
    rw [← List.cons_append, ← List.append_assoc] at h
    rcases since_concat.1 h with hx | ⟨-, h⟩
    · exact ⟨x, List.mem_append_right between List.mem_cons_self, hx⟩
    · exact (ih h).imp fun _ hx ↦ ⟨List.mem_append_left _ hx.1, hx.2⟩

end Since

theorem lastChange?_concat (log : List Event) (e : Event) :
    lastChange? (log ++ [e]) = e.change?.or (lastChange? log) := by
  rw [lastChange?, List.filterMap_append, List.getLast?_append]
  cases e <;> rfl

structure Reflects (window : Nat) (log : List Event) (d : Debouncer) : Prop where
  window_eq : d.window = window
  waiting : d.changed.isSome ↔ Waiting log
  last : ∀ now, d.changed = some now → lastChange? log = some now
  running : d.inFlight = true ↔ Running log

section Reflecting

variable {window : Nat} {log : List Event} {d : Debouncer}

theorem reflects_new (window : Nat) : Reflects window [] { window } where
  window_eq := rfl
  waiting := iff_of_false (fun h ↦ by cases h) not_since_nil
  last _ h := by cases h
  running := iff_of_false (fun h ↦ by cases h) not_since_nil

theorem Reflects.concat {e : Event} (h : Reflects window log d) (hchange : ¬e.isChange)
    (hstart : ¬e.isStart) (hend : ¬e.isEnd) (hnone : e.change? = none) :
    Reflects window (log ++ [e]) d where
  window_eq := h.window_eq
  waiting := h.waiting.trans (by rw [Waiting, since_concat]; simp [hchange, hstart])
  last now hnow := by
    rw [lastChange?_concat, hnone, Option.none_or]
    exact h.last now hnow
  running := h.running.trans (by rw [Running, since_concat]; simp [hstart, hend])

theorem Reflects.notify (h : Reflects window log d) (now : Nat) :
    Reflects window (log ++ [.notified now]) (d.notify now) where
  window_eq := h.window_eq
  waiting := iff_of_true rfl (since_concat.2 (Or.inl ⟨now, rfl⟩))
  last now' hnow := by
    rw [lastChange?_concat]
    exact hnow
  running := h.running.trans (by
    rw [Running, since_concat]
    simp [Event.isStart, Event.isEnd])

theorem Reflects.finish (h : Reflects window log d) (owed : Bool) :
    Reflects window (log ++ [.finished owed]) d.finish.2 where
  window_eq := h.window_eq
  waiting := h.waiting.trans (by
    rw [Waiting, since_concat]
    simp [Event.isChange, Event.isStart])
  last now hnow := by
    rw [lastChange?_concat]
    exact h.last now hnow
  running := iff_of_false (fun hrun ↦ by cases hrun) (by
    rw [Running, since_concat]
    simp [Event.isStart, Event.isEnd])

theorem Reflects.start (h : Reflects window log d) (now : Nat) :
    Reflects window (log ++ [.tried now true]) { d with changed := none, inFlight := true } where
  window_eq := h.window_eq
  waiting := iff_of_false (fun hsome ↦ by cases hsome) (by
    rw [Waiting, since_concat]
    simp [Event.isChange, Event.isStart])
  last _ hnow := by cases hnow
  running := iff_of_true rfl (since_concat.2 (Or.inl ⟨now, rfl⟩))

theorem Reflects.deadline (h : Reflects window log d) :
    (Waiting log → ∃ last, lastChange? log = some last ∧ d.deadline = some (last + window)) ∧
      (¬Waiting log → d.deadline = none) := by
  rw [← h.waiting, Debouncer.deadline, ← h.window_eq]
  refine ⟨fun hsome ↦ ?_, fun hnone ↦ ?_⟩
  · obtain ⟨last, hlast⟩ := Option.isSome_iff_exists.1 hsome
    exact ⟨last, h.last last hlast, by rw [hlast]; rfl⟩
  · rw [Option.not_isSome_iff_eq_none.1 hnone]
    rfl

theorem Reflects.tryStart (h : Reflects window log d) (now : Nat) :
    ((d.tryStart now).1 = true ↔ Waiting log ∧ ¬Running log ∧
      ∃ last, lastChange? log = some last ∧ last + window ≤ now) ∧
    Reflects window (log ++ [.tried now (d.tryStart now).1]) (d.tryStart now).2 := by
  have hfailed : Reflects window (log ++ [.tried now false]) d :=
    h.concat (by simp [Event.isChange]) (by simp [Event.isStart]) (by simp [Event.isEnd]) rfl
  obtain ⟨hdue, hnone⟩ := h.deadline
  by_cases hwaiting : Waiting log
  · obtain ⟨last, hlast, hdeadline⟩ := hdue hwaiting
    have hstart : (d.inFlight || decide (now < last + window)) = false ↔
        ¬Running log ∧ ∃ last, lastChange? log = some last ∧ last + window ≤ now := by
      simp [← h.running, hlast]
    rw [Debouncer.tryStart, hdeadline]
    dsimp only
    split
    · rename_i hbusy
      refine ⟨iff_of_false Bool.false_ne_true fun hall ↦ ?_, hfailed⟩
      rw [hstart.2 hall.2] at hbusy
      cases hbusy
    · rename_i hfree
      exact ⟨iff_of_true rfl ⟨hwaiting, hstart.1 (Bool.eq_false_iff.2 hfree)⟩, h.start now⟩
  · rw [Debouncer.tryStart, hnone hwaiting]
    exact ⟨iff_of_false Bool.false_ne_true fun hall ↦ hwaiting hall.1, hfailed⟩

theorem Reflects.run (h : Reflects window log d) (s : Signal) :
    (s.run d).1.signal = s ∧ Reflects window (log ++ [(s.run d).1]) (s.run d).2 := by
  cases s with
  | notify now => exact ⟨rfl, h.notify now⟩
  | tryStart now => exact ⟨rfl, (h.tryStart now).2⟩
  | finish => exact ⟨rfl, h.finish _⟩
  | deadline =>
    exact ⟨rfl, h.concat (by simp [Signal.run, Event.isChange]) (by simp [Signal.run, Event.isStart])
      (by simp [Signal.run, Event.isEnd]) rfl⟩

/-- Every event of a history is the answer of a state that reflects the events before it. -/
theorem Reflects.history (h : Reflects window log d) (signals : List Signal) :
    (d.history signals).map Event.signal = signals ∧
      ∀ before e after, d.history signals = before ++ e :: after →
        ∃ d' s, Reflects window (log ++ before) d' ∧ (Signal.run d' s).1 = e := by
  induction signals generalizing log d with
  | nil =>
    refine ⟨rfl, fun before e after he ↦ ?_⟩
    exact absurd he.symm (List.append_ne_nil_of_right_ne_nil before (List.cons_ne_nil e after))
  | cons s rest ih =>
    obtain ⟨hsignal, hnext⟩ := h.run s
    obtain ⟨hsignals, hevents⟩ := ih hnext
    refine ⟨congr (congrArg List.cons hsignal) hsignals, fun before e after he ↦ ?_⟩
    cases before with
    | nil =>
      refine ⟨d, s, ?_, List.head_eq_of_cons_eq he⟩
      rw [List.append_nil]
      exact h
    | cons first before =>
      obtain ⟨rfl, hrest⟩ := List.cons.inj he
      obtain ⟨d', s', hreflects, hrun⟩ := hevents before e after hrest
      rw [List.append_assoc] at hreflects
      exact ⟨d', s', hreflects, hrun⟩

end Reflecting

/-- Between two runs that start there are the end of the first and a change. A run starts if
and only if a change came after the last start, no run is under way and the window has passed
since the last change; the deadline is the end of that window as long as a change is waiting;
and the end of a run says whether one is. -/
theorem runs_cover_changes (window : Nat) (signals : List Signal) :
    let log := history { window } signals
    log.map Event.signal = signals ∧
    (∀ before between after now now',
      log = before ++ .tried now true :: between ++ .tried now' true :: after →
        (∃ owed, .finished owed ∈ between) ∧ ∃ time, .notified time ∈ between) ∧
    (∀ before after now started, log = before ++ .tried now started :: after →
      (started = true ↔ Waiting before ∧ ¬Running before ∧
        ∃ last, lastChange? before = some last ∧ last + window ≤ now)) ∧
    (∀ before after due, log = before ++ .asked due :: after →
      (Waiting before → ∃ last, lastChange? before = some last ∧ due = some (last + window)) ∧
        (¬Waiting before → due = none)) ∧
    ∀ before after owed, log = before ++ .finished owed :: after →
      (owed = true ↔ Waiting before) := by
  intro log
  obtain ⟨hsignals, hevents⟩ := (reflects_new window).history signals
  have htried (before after : List Event) (now : Nat) (started : Bool)
      (he : log = before ++ .tried now started :: after) :
      started = true ↔ Waiting before ∧ ¬Running before ∧
        ∃ last, lastChange? before = some last ∧ last + window ≤ now := by
    obtain ⟨d, s, hreflects, hrun⟩ := hevents before _ after he
    cases s <;> cases hrun
    exact (hreflects.tryStart now).1
  refine ⟨hsignals, fun before between after now now' he ↦ ?_, htried,
    fun before after due he ↦ ?_, fun before after owed he ↦ ?_⟩
  · obtain ⟨hwaiting, hidle, -⟩ := (htried _ after now' true he).1 rfl
    refine ⟨not_not.1 fun hnone ↦ hidle ?_, ?_⟩
    · refine ⟨before, _, between, rfl, ⟨now, rfl⟩, ?_⟩
      rintro _ hx ⟨owed, rfl⟩
      exact hnone ⟨owed, hx⟩
    · obtain ⟨_, hx, time, rfl⟩ := hwaiting.mem_of_after ⟨now, rfl⟩ (by simp [Event.isChange])
      exact ⟨time, hx⟩
  · obtain ⟨d, s, hreflects, hrun⟩ := hevents before _ after he
    cases s <;> cases hrun
    exact hreflects.deadline
  · obtain ⟨d, s, hreflects, hrun⟩ := hevents before _ after he
    cases s <;> cases hrun
    exact hreflects.waiting

/-- A debouncer with a flag for a change that waits, which goes on to know the time of the last
change when a run has covered it. -/
structure Flagged where
  window : Nat
  dirty : Bool := false
  lastChange : Option Nat := none
  inFlight : Bool := false

namespace Flagged

def notify (f : Flagged) (now : Nat) : Flagged := { f with dirty := true, lastChange := some now }

def deadline (f : Flagged) : Option Nat :=
  if f.dirty then f.lastChange.map (· + f.window) else none

def tryStart (f : Flagged) (now : Nat) : Bool × Flagged :=
  if !f.dirty || f.inFlight then (false, f)
  else if f.lastChange.any (now < · + f.window) then (false, f)
  else (true, { f with dirty := false, inFlight := true })

def finish (f : Flagged) : Bool × Flagged := (f.dirty, { f with inFlight := false })

def run (f : Flagged) : Signal → Event × Flagged
  | .notify now => (.notified now, f.notify now)
  | .tryStart now =>
    let (started, f) := f.tryStart now
    (.tried now started, f)
  | .finish =>
    let (owed, f) := f.finish
    (.finished owed, f)
  | .deadline => (.asked f.deadline, f)

def history : Flagged → List Signal → List Event
  | _, [] => []
  | f, s :: rest => (f.run s).1 :: history (f.run s).2 rest

def merged (f : Flagged) : Debouncer where
  window := f.window
  changed := if f.dirty then f.lastChange else none
  inFlight := f.inFlight

def Timed (f : Flagged) : Prop := f.dirty = true → f.lastChange.isSome = true

variable {f : Flagged}

theorem tryStart_merged (h : f.Timed) (now : Nat) :
    f.merged.tryStart now = ((f.tryStart now).1, (f.tryStart now).2.merged) := by
  obtain ⟨window, dirty, lastChange, inFlight⟩ := f
  cases dirty with
  | false => rfl
  | true =>
    obtain ⟨last, rfl⟩ := Option.isSome_iff_exists.1 (h rfl)
    cases inFlight with
    | true => rfl
    | false =>
      by_cases hearly : now < last + window <;>
        simp [Debouncer.tryStart, Debouncer.deadline, tryStart, merged, hearly]

theorem Timed.tryStart (h : f.Timed) (now : Nat) : (f.tryStart now).2.Timed := by
  rw [Flagged.tryStart]
  split
  · exact h
  · split
    · exact h
    · exact fun hdirty ↦ absurd hdirty Bool.false_ne_true

theorem run_merged (h : f.Timed) (s : Signal) :
    Signal.run f.merged s = ((f.run s).1, (f.run s).2.merged) ∧ (f.run s).2.Timed := by
  cases s with
  | notify now => exact ⟨rfl, fun _ ↦ rfl⟩
  | tryStart now => exact ⟨by rw [Signal.run, tryStart_merged h, run], h.tryStart now⟩
  | finish =>
    refine ⟨?_, h⟩
    obtain ⟨window, dirty, lastChange, inFlight⟩ := f
    cases dirty with
    | false => rfl
    | true =>
      obtain ⟨last, rfl⟩ := Option.isSome_iff_exists.1 (h rfl)
      rfl
  | deadline =>
    refine ⟨?_, h⟩
    obtain ⟨window, dirty, lastChange, inFlight⟩ := f
    cases dirty <;> rfl

theorem history_merged (h : f.Timed) (signals : List Signal) :
    f.merged.history signals = f.history signals := by
  induction signals generalizing f with
  | nil => rfl
  | cons s rest ih =>
    obtain ⟨hrun, htimed⟩ := run_merged h s
    rw [Debouncer.history, history, hrun, ih htimed]

end Flagged

/-- Nothing that a debouncer answers tells whether it keeps a flag. -/
theorem history_eq_flagged (window : Nat) (signals : List Signal) :
    history { window } signals = Flagged.history { window } signals :=
  Flagged.history_merged (f := { window }) (fun hdirty ↦ absurd hdirty Bool.false_ne_true) signals

end TypedLoader.Debouncer
