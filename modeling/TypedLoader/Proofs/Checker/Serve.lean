import Mathlib.Data.List.Forall2
import Mathlib.Logic.Relation
import Mathlib.Order.WellFounded
import TypedLoader.Checker.Serve
import TypedLoader.Proofs.Checker.Envelope
import TypedLoader.Proofs.Checker.Stream

namespace TypedLoader.Serve

open Relation (ReflTransGen)

/-- Between two messages: what is left of the input, the session, and what has been written
so far. -/
structure Loop where
  input : Bytes
  session : Session := {}
  output : Bytes := []
  calls : List Call := []

namespace Loop

variable {w : World} {l k : Loop} {messages : List String} {rest : Bytes}

/-- Reads the next message; unless it is blank, the response is written at once. -/
inductive Step (w : World) : Loop → Loop → Prop
  | skip {l : Loop} {message : String} {rest : Bytes}
      (h : Frame.next true l.input = .message message rest)
      (blank : Text.allBlank message = true) : Step w l { l with input := rest }
  | answer {l : Loop} {message : String} {rest : Bytes}
      (h : Frame.next true l.input = .message message rest)
      (blank : Text.allBlank message = false) :
      Step w l {
        input := rest
        session := (respond w l.session message).2.1
        output := l.output ++ encode (respond w l.session message).1
        calls := l.calls ++ (respond w l.session message).2.2 }

/-- There is no next message: the input has ended, or it cannot be read on. -/
def Ends (l : Loop) : Option CheckError → Prop
  | none => Frame.next true l.input = .finished
  | some e => Frame.next true l.input = .failed e

theorem Step.lt (h : Step w l k) : k.input.length < l.input.length := by
  cases h with
  | skip h => exact Frame.length_of_next h
  | answer h => exact Frame.length_of_next h

theorem wellFounded_step (w : World) : WellFounded fun k l ↦ Step w l k :=
  Subrelation.wf (fun h ↦ h.lt) (measure fun l : Loop ↦ l.input.length).wf

theorem Step.unique {l' : Loop} (h : Step w l k) (h' : Step w l l') : k = l' := by
  cases h with
  | skip h blank =>
    cases h' with
    | skip h' =>
      obtain ⟨rfl, rfl⟩ := Frame.Incoming.message.inj (h.symm.trans h')
      rfl
    | answer h' blank' =>
      obtain ⟨rfl, rfl⟩ := Frame.Incoming.message.inj (h.symm.trans h')
      exact absurd (blank.symm.trans blank') (by decide)
  | answer h blank =>
    cases h' with
    | skip h' blank' =>
      obtain ⟨rfl, rfl⟩ := Frame.Incoming.message.inj (h.symm.trans h')
      exact absurd (blank'.symm.trans blank) (by decide)
    | answer h' =>
      obtain ⟨rfl, rfl⟩ := Frame.Incoming.message.inj (h.symm.trans h')
      rfl

theorem Ends.unique {e e' : Option CheckError} (h : l.Ends e) (h' : l.Ends e') : e = e' := by
  cases e <;> cases e'
  · rfl
  · cases h.symm.trans h'
  · cases h.symm.trans h'
  · rw [Frame.Incoming.failed.inj (h.symm.trans h')]

theorem Ends.not_step {e : Option CheckError} (h : l.Ends e) : ¬Step w l k := by
  intro hs
  cases e <;> cases hs with
  | skip hn => cases h.symm.trans hn
  | answer hn => cases h.symm.trans hn

theorem Ends.of_run {l' : Loop} {e e' : Option CheckError} (h : ReflTransGen (Step w) l k)
    (he : k.Ends e) (h' : ReflTransGen (Step w) l l') (he' : l'.Ends e') : l' = k ∧ e' = e := by
  induction h using ReflTransGen.head_induction_on with
  | refl =>
    rcases h'.cases_head with rfl | ⟨_, hs, -⟩
    · exact ⟨rfl, he'.unique he⟩
    · exact absurd hs he.not_step
  | head hs _ ih =>
    rcases h'.cases_head with rfl | ⟨_, hs', h'⟩
    · exact absurd hs he'.not_step
    · exact ih (hs.unique hs' ▸ h')

theorem run_of_reads (h : Frame.Reads true l.input messages rest) :
    ReflTransGen (Step w) l {
      input := rest
      session := (respondAll w l.session messages).2.1
      output := l.output ++ (respondAll w l.session messages).1.flatMap encode
      calls := l.calls ++ (respondAll w l.session messages).2.2 } := by
  obtain ⟨input, session, output, calls⟩ := l
  dsimp only at h ⊢
  induction h generalizing session output calls with
  | nil s =>
    simp only [respondAll, List.flatMap_nil, List.append_nil]
    exact .refl
  | @cons s later rest message messages h _ ih =>
    rw [respondAll]
    cases hb : Text.allBlank message with
    | true => exact .head (.skip h hb) (ih session output calls)
    | false =>
      have hrest := ih (respond w session message).2.1
        (output ++ encode (respond w session message).1)
        (calls ++ (respond w session message).2.2)
      simp only [Bool.false_eq_true, if_false, List.flatMap_cons, ← List.append_assoc]
      exact .head (.answer h hb) hrest

end Loop

/-- Reading everything first and answering it afterwards leaves nothing different. -/
theorem run_eq_loop (w : World) (input : Bytes) : ∃ l : Loop,
    ReflTransGen (Loop.Step w) { input } l ∧ l.Ends (run w input).failure ∧
      l.output = (run w input).output ∧ l.session = (run w input).session ∧
      l.calls = (run w input).calls := by
  obtain ⟨rest, hreads, hend⟩ := Frame.reads_readAll input
  have hfailure : (run w input).failure = (Frame.readAll input).2 := rfl
  refine ⟨_, Loop.run_of_reads (l := { input }) hreads, ?_, rfl, rfl, rfl⟩
  rw [hfailure]
  rcases hend with ⟨hnext, he⟩ | ⟨e, hnext, he⟩
  · rw [he]
    exact hnext
  · rw [he]
    exact hnext

def Numbered (message : String) (n : Nat) : Prop :=
  ∃ j, Json.ofText? message = some j ∧ j.get? "seq" = some (.nat n) ∧ n < UInt64.size

theorem seqHint_eq (message : String) : seqHint message =
    ((Json.ofText? message).bind fun j ↦ (j.get? "seq").bind
      (Json.natBelow? UInt64.size)).getD 0 := rfl

theorem seqHint_of_numbered {message : String} {n : Nat} (h : Numbered message n) :
    seqHint message = n := by
  obtain ⟨j, hj, hn, hlt⟩ := h
  rw [seqHint_eq, hj, Option.bind_some, hn, Option.bind_some, Json.natBelow?_nat hlt,
    Option.getD_some]

theorem seqHint_of_not_numbered {message : String} (h : ∀ n, ¬Numbered message n) :
    seqHint message = 0 := by
  rw [seqHint_eq]
  cases hj : Json.ofText? message with
  | none => rfl
  | some j =>
    rw [Option.bind_some]
    cases hg : j.get? "seq" with
    | none => rfl
    | some value =>
      rw [Option.bind_some]
      cases hn : value.natBelow? UInt64.size with
      | none => rfl
      | some n =>
        obtain ⟨rfl, hlt⟩ := Json.eq_nat_of_natBelow? hn
        exact absurd ⟨j, hj, hg, hlt⟩ (h n)

/-- A response to a message has the number of the request, or reports a failure under the
number that the message has otherwise, if it has one. -/
inductive Answers (message : String) (r : Response) : Prop
  | request {e : RequestEnvelope} (h : RequestEnvelope.ofText? message = some e)
      (seq : r.seq = e.seq)
  | numbered {n : Nat} (h : RequestEnvelope.ofText? message = none) (hn : Numbered message n)
      (failed : r.success = false) (seq : r.seq = n)
  | unnumbered (h : RequestEnvelope.ofText? message = none) (hn : ∀ n, ¬Numbered message n)
      (failed : r.success = false) (seq : r.seq = 0)

theorem seq_answer (w : World) (s : Session) (e : RequestEnvelope) :
    (s.answer w e).1.seq = e.seq := by
  unfold Session.answer
  split
  · rfl
  · exact Response.seq_ofResult _ _

theorem answers_respond (w : World) (s : Session) (message : String) :
    Answers message (respond w s message).1 := by
  cases h : RequestEnvelope.ofText? message with
  | some e =>
    rw [respond, h]
    exact .request h (seq_answer w s e)
  | none =>
    rw [respond, h]
    by_cases hn : ∃ n, Numbered message n
    · obtain ⟨n, hn⟩ := hn
      exact .numbered h hn rfl (seqHint_of_numbered hn)
    · have hnone : ∀ n, ¬Numbered message n := not_exists.1 hn
      exact .unnumbered h hnone rfl (seqHint_of_not_numbered hnone)

def answered (messages : List String) : List String :=
  messages.filter fun message ↦ !Text.allBlank message

theorem respondAll_answered (w : World) (s : Session) (messages : List String) :
    respondAll w s (answered messages) = respondAll w s messages := by
  induction messages generalizing s with
  | nil => rfl
  | cons message messages ih =>
    cases hb : Text.allBlank message with
    | true =>
      have hskip : answered (message :: messages) = answered messages := by simp [answered, hb]
      rw [hskip, ih, respondAll.eq_2 w s message, if_pos hb]
    | false =>
      have hkeep : answered (message :: messages) = message :: answered messages := by
        simp [answered, hb]
      rw [hkeep, respondAll, respondAll]
      simp only [hb, Bool.false_eq_true, if_false, ih]

theorem forall₂_answers (w : World) (s : Session) (messages : List String) :
    List.Forall₂ Answers (answered messages) (respondAll w s messages).1 := by
  induction messages generalizing s with
  | nil => exact .nil
  | cons message messages ih =>
    cases hb : Text.allBlank message with
    | true =>
      have hskip : answered (message :: messages) = answered messages := by simp [answered, hb]
      rw [hskip, respondAll, if_pos hb]
      exact ih s
    | false =>
      have hkeep : answered (message :: messages) = message :: answered messages := by
        simp [answered, hb]
      rw [hkeep, respondAll]
      simp only [hb, Bool.false_eq_true, if_false]
      exact .cons (answers_respond w s message) (ih _)

/-- Serving an input ends, and always in the same way: every message that can be read has been
answered, blank ones apart, once and in order, when the worker stops; it stops at the end of the
input, or with the error that cuts it short. -/
theorem answers_every_message (w : World) (input : Bytes) :
    let served := run w input
    let messages := answered (Frame.readAll input).1
    let responses := (respondAll w {} messages).1
    (WellFounded fun k l ↦ Loop.Step w l k) ∧
      (∃ l, ReflTransGen (Loop.Step w) { input } l ∧ l.Ends served.failure) ∧
      (∀ l failure, ReflTransGen (Loop.Step w) { input } l → l.Ends failure →
        failure = (Frame.readAll input).2 ∧ l.output = responses.flatMap encode) ∧
      served.output = responses.flatMap encode ∧ List.Forall₂ Answers messages responses := by
  intro served messages responses
  obtain ⟨l, hrun, hends, houtput, -⟩ := run_eq_loop w input
  have hresponses : responses = (respondAll w {} (Frame.readAll input).1).1 :=
    congrArg Prod.fst (respondAll_answered w {} (Frame.readAll input).1)
  have hserved : served.output = responses.flatMap encode := by rw [hresponses]; rfl
  refine ⟨Loop.wellFounded_step w, ⟨l, hrun, hends⟩, fun k failure hk he ↦ ?_, hserved, ?_⟩
  · obtain ⟨rfl, rfl⟩ := hends.of_run hrun hk he
    exact ⟨rfl, houtput.trans hserved⟩
  · rw [hresponses]
    exact forall₂_answers w {} _

end TypedLoader.Serve
