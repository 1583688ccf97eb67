import TypedLoader.Proofs.Analysis.Importing
import TypedLoader.Proofs.Compilation

namespace TypedLoader

def Call.isBuild : Call → Bool
  | .build _ => true
  | _ => false

/-- What an action has done, whatever its result. -/
def Outcome.effect {σ ε α : Type} (o : Outcome σ ε α) : σ × List Call := (o.state, o.calls)

theorem filter_calls_eq_nil {calls : List Call} (h : ∀ call ∈ calls, call.isBuild = false) :
    calls.filter Call.isBuild = [] :=
  List.filter_eq_nil_iff.2 fun call hm ↦ by simp [h call hm]

namespace Analysis.Walk

variable {w : World} {options : Json.Object}

theorem calls_visit (w : World) (options : Json.Object) (k : Walk) (file : Path) :
    ∀ c ∈ (visit w options k file).calls, c.isBuild = false := by
  have hload : ∀ c ∈ (load w k.files file).calls, c.isBuild = false := by
    intro c hc
    rw [load] at hc
    split at hc
    · cases hc
    · split at hc <;> obtain rfl := List.mem_singleton.1 hc <;> rfl
  intro c hc
  rw [visit] at hc
  split at hc
  · rename_i e files calls hl
    rw [hl] at hload
    exact hload c hc
  · rename_i text files calls hl
    rw [hl] at hload
    simp only [List.mem_append, List.mem_singleton] at hc
    rcases hc with (hc | rfl) | hc
    · exact hload c hc
    · rfl
    · exact calls_linkAll (Q := (·.isBuild = false)) (fun _ _ ↦ rfl) _ _ _ c hc

theorem calls_run (k : Walk) : ∀ c ∈ (Walk.run w options k).calls, c.isBuild = false := by
  fun_induction Walk.run w options k with
  | case1 k hq => simp
  | case2 k file queue hq hv _ ih => exact ih
  | case3 k file queue hq hv e k' calls hvis =>
    have hcalls := calls_visit w options (k.enter file queue) file
    rw [hvis] at hcalls
    exact hcalls
  | case4 k file queue hq hv next calls hvis _ ih =>
    have hcalls := calls_visit w options (k.enter file queue) file
    rw [hvis] at hcalls
    intro c hc
    rcases List.mem_append.1 hc with hc | hc
    · exact hcalls c hc
    · exact ih c hc

end Analysis.Walk

namespace Compilation

open TypedLoader.Action
open Analysis (Walk)

/-- What can be done with a compilation. Every operation finds a world of its
own. -/
inductive Operation where
  | add (p : Path) (text : String)
  | update (p : Path) (text : String) (checked : Bool)
  | remove (p : Path)
  | rename (source target : Path)
  | invalidate (p : Path)
  | check (w : World) (p : Path)
  | fetch (w : World) (p : Path)
  | resolveModule (w : World) (p : Path) (name : String)
  | resolveTypes (w : World) (p : Path) (name : String)
  | dropProgram
  | program (w : World)
  | emitOutput (w : World) (p : Path)
  | emit (w : World) (p : Path)
  | emitOrTranspile (w : World) (p : Path) (transpileOnly : Bool)
  | reports (w : World) (f : DiagnosticFilter) (context : Path)

/-- The program is asked for, or the one that is kept is dropped. -/
inductive Step where
  | ask (w : World) (c : Compilation)
  | drop

namespace Step

def calls : Step → List Call
  | ask w c => ((program w).run c).calls
  | drop => []

end Step

/-- A program that does not contain the file is dropped, and asked for again. -/
def asks (w : World) (p : Path) (c : Compilation) : List Step :=
  let first := (program w).run c
  match first.result with
  | .ok latest =>
    if latest.contains p.normalize then [.ask w c]
    else [.ask w c, .drop, .ask w first.state.dropProgram]
  | .error _ => [.ask w c]

namespace Operation

def run (c : Compilation) : Operation → Compilation × List Call
  | add p text => (c.add p text, [])
  | update p text checked => ((c.update p text checked).2, [])
  | remove p => ((c.remove p).2, [])
  | rename source target => ((c.rename source target).2, [])
  | invalidate p => (c.invalidate p, [])
  | check w p => ((Compilation.check w p).run c).effect
  | fetch w p => ((Compilation.fetch w p).run c).effect
  | resolveModule w p name => ((Compilation.resolveModule w p name).run c).effect
  | resolveTypes w p name => ((Compilation.resolveTypes w p name).run c).effect
  | dropProgram => (c.dropProgram, [])
  | program w => ((Compilation.program w).run c).effect
  | emitOutput w p => ((Compilation.emitOutput w p).run c).effect
  | emit w p => ((Compilation.emit w p).run c).effect
  | emitOrTranspile w p transpileOnly =>
    ((Compilation.emitOrTranspile w p transpileOnly).run c).effect
  | reports w f context => ((Compilation.reports w f context).run c).effect

def steps (c : Compilation) : Operation → List Step
  | dropProgram => [.drop]
  | program w => [.ask w c]
  | emitOutput w p => asks w p c
  | emit w p => asks w p c
  | emitOrTranspile w p transpileOnly => if transpileOnly then [] else asks w p c
  | reports w _ _ => [.ask w c]
  | _ => []

def BuildsBy (build : Host → Except String Program) : Operation → Prop
  | program w => w.compiler.build = build
  | emitOutput w _ => w.compiler.build = build
  | emit w _ => w.compiler.build = build
  | emitOrTranspile w _ _ => w.compiler.build = build
  | reports w _ _ => w.compiler.build = build
  | _ => True

end Operation

def perform (c : Compilation) : List Operation → Compilation × List Call
  | [] => (c, [])
  | op :: rest =>
    let (c, calls) := op.run c
    let (c, others) := c.perform rest
    (c, calls ++ others)

def trace (c : Compilation) : List Operation → List Step
  | [] => []
  | op :: rest => op.steps c ++ (op.run c).1.trace rest

def versions (c : Compilation) : Nat × Nat := (c.files.projectVersion, c.files.generation)

def Step.note (kept : List (Nat × Nat)) : Step → List (Nat × Nat)
  | ask w c => if .build true ∈ ((program w).run c).calls then c.versions :: kept else kept
  | drop => []

/-- The versions for which a program has been built since the last was dropped,
newest first. -/
def keptAfter (steps : List Step) : List (Nat × Nat) := steps.foldl Step.note []

section Steps

variable {build : Host → Except String Program} {w : World} {c c' c₁ c₂ : Compilation} {p : Path}

/-- Files may have changed, and nothing else that matters for the program. -/
structure Changes (c c' : Compilation) : Prop where
  files : c.files.Advances c'.files
  built : c'.built = c.built
  options : c'.options = c.options

/-- The steps lead from one state to another, with changes in between. -/
inductive Leads (build : Host → Except String Program) :
    Compilation → List Step → Compilation → Prop
  | done (c : Compilation) : Leads build c [] c
  | change {c c₁ c₂ : Compilation} {steps : List Step} (h : Changes c c₁)
      (hl : Leads build c₁ steps c₂) : Leads build c steps c₂
  | drop {c c' : Compilation} {steps : List Step} (hl : Leads build c.dropProgram steps c') :
      Leads build c (.drop :: steps) c'
  | ask {w : World} {c c' : Compilation} {steps : List Step} (hw : w.compiler.build = build)
      (hl : Leads build ((program w).run c).state steps c') : Leads build c (.ask w c :: steps) c'

theorem Leads.trans {steps steps' : List Step} (h : Leads build c steps c₁)
    (h' : Leads build c₁ steps' c₂) : Leads build c (steps ++ steps') c₂ := by
  induction h with
  | done c => exact h'
  | change hc _ ih => exact .change hc (ih h')
  | drop _ ih => exact .drop (ih h')
  | ask hw _ ih => exact .ask hw (ih h')

theorem Changes.leads (h : Changes c c') : Leads build c [] c' := .change h (.done c')

def Idle {ε α : Type} (a : Action Compilation ε α) : Prop :=
  (∀ c, (a.run c).state = c) ∧ Calls (·.isBuild = false) a

theorem Idle.bind {ε α β : Type} {a : Action Compilation ε α} {f : α → Action Compilation ε β}
    (h : ∀ x, Idle (f x)) (c : Compilation) : ((a >>= f).run c).state = (a.run c).state ∧
      ((a >>= f).run c).calls.filter Call.isBuild = (a.run c).calls.filter Call.isBuild := by
  rw [run_bind]
  rcases hrun : a.run c with ⟨e | x, c', calls⟩
  · exact ⟨rfl, rfl⟩
  · obtain ⟨hstate, hcalls⟩ := h x
    refine ⟨hstate c', ?_⟩
    have hnone := filter_calls_eq_nil (hcalls c')
    simp only [Outcome.after, List.filter_append, hnone, List.append_nil]

theorem Idle.seq {ε α β : Type} {a : Action Compilation ε α} {f : α → Action Compilation ε β}
    (ha : Idle a) (h : ∀ x, Idle (f x)) : Idle (a >>= f) :=
  ⟨fun c ↦ (Idle.bind h c).1.trans (ha.1 c), ha.2.bind fun x ↦ (h x).2⟩

theorem idle_get {ε : Type} : Idle (get : Action Compilation ε Compilation) :=
  ⟨fun _ ↦ rfl, calls_get⟩

theorem idle_call {ε : Type} {c : Call} (h : c.isBuild = false) :
    Idle (call c : Action Compilation ε Unit) := ⟨fun _ ↦ rfl, calls_call h⟩

theorem idle_pure {ε α : Type} (x : α) : Idle (pure x : Action Compilation ε α) :=
  ⟨fun _ ↦ rfl, calls_pure x⟩

theorem idle_fail {ε α : Type} (e : ε) : Idle (fail e : Action Compilation ε α) :=
  ⟨fun _ ↦ rfl, calls_fail e⟩

theorem current?_eq_some {latest : Program} : c.current? = some latest ↔
    ∃ b, c.built = some b ∧ (b.projectVersion, b.generation) = c.versions ∧ b.program = latest := by
  simp only [current?, versions, Option.bind_eq_some_iff, Prod.mk.injEq, Option.ite_none_right_eq_some,
    Option.some.injEq]

theorem run_program (w : World) (c : Compilation) : (program w).run c =
    (match c.current? with
      | some latest => pure latest
      | none =>
        match w.compiler.build c.host with
        | .error reason => do
          Action.call (.build false)
          Action.fail (.compiler reason)
        | .ok latest => do
          Action.call (.build true)
          Action.set { c with built := some ⟨c.files.projectVersion, c.files.generation, latest⟩ }
          pure latest : Act Program).run c := rfl

theorem run_program_cases (w : World) (c : Compilation) :
    (∃ latest, c.current? = some latest ∧ (program w).run c = ⟨.ok latest, c, []⟩) ∨
    (c.current? = none ∧ ∃ reason, w.compiler.build c.host = .error reason ∧
      (program w).run c = ⟨.error (.compiler reason), c, [.build false]⟩) ∨
    (c.current? = none ∧ ∃ latest, w.compiler.build c.host = .ok latest ∧
      (program w).run c = ⟨.ok latest,
        { c with built := some ⟨c.files.projectVersion, c.files.generation, latest⟩ },
        [.build true]⟩) := by
  rw [run_program]
  cases c.current? with
  | some latest => exact Or.inl ⟨latest, rfl, rfl⟩
  | none =>
    cases w.compiler.build c.host with
    | error reason => exact Or.inr (Or.inl ⟨rfl, reason, rfl, rfl⟩)
    | ok latest => exact Or.inr (Or.inr ⟨rfl, latest, rfl, rfl⟩)

/-- The program that is kept was built last, for versions that are not to come, and
is what the compiler builds as long as the generation stays. -/
structure Current (build : Host → Except String Program) (c : Compilation)
    (kept : List (Nat × Nat)) : Prop where
  newest : c.built.map (fun b ↦ (b.projectVersion, b.generation)) = kept.head?
  falling : kept.Pairwise fun v v' ↦ v'.2 < v.2
  past : ∀ v ∈ kept, v.2 ≤ c.files.generation
  program : ∀ b, c.built = some b → b.generation = c.files.generation →
    b.projectVersion = c.files.projectVersion ∧ build c.host = .ok b.program

section Keeping

variable {kept : List (Nat × Nat)}

theorem current_make (build : Host → Except String Program) (options : Json.Object)
    (case : PathCase) : Current build (make options case) [] where
  newest := rfl
  falling := .nil
  past := by simp
  program := by simp [make]

theorem Current.drop (build : Host → Except String Program) (c : Compilation) :
    Current build c.dropProgram [] where
  newest := rfl
  falling := .nil
  past := by simp
  program := by simp [dropProgram]

theorem Current.built_le (h : Current build c kept) {b : BuiltProgram} (hb : c.built = some b) :
    (b.projectVersion, b.generation) ∈ kept ∧ b.generation ≤ c.files.generation := by
  have hm : (b.projectVersion, b.generation) ∈ kept := by
    apply List.mem_of_head?
    rw [← h.newest, hb]
    rfl
  exact ⟨hm, h.past _ hm⟩

theorem Current.change (h : Current build c kept) (hc : Changes c c') : Current build c' kept := by
  refine ⟨hc.built ▸ h.newest, h.falling, ?_, ?_⟩
  · intro v hv
    exact Nat.le_trans (h.past v hv) hc.files.le
  · intro b hb hg
    rw [hc.built] at hb
    rcases hc.files with hfiles | hlt
    · have hhost : c'.host = c.host := by
        rw [host, host, hfiles, hc.options]
      rw [hfiles] at hg ⊢
      rw [hhost]
      exact h.program b hb hg
    · have hle := (h.built_le hb).2
      omega

theorem Current.built_of_mem (h : Current build c kept) {v : Nat × Nat} (hv : v ∈ kept)
    (hg : v.2 = c.files.generation) :
    ∃ b, c.built = some b ∧ (b.projectVersion, b.generation) = c.versions := by
  obtain ⟨first, rest, hkept⟩ := List.exists_cons_of_ne_nil (List.ne_nil_of_mem hv)
  have hfirst : first.2 = c.files.generation := by
    have hle := h.past first (hkept ▸ List.mem_cons_self)
    rw [hkept] at hv
    rcases List.mem_cons.1 hv with rfl | hv
    · exact hg
    · have hlt := (List.pairwise_cons.1 (hkept ▸ h.falling)).1 v hv
      omega
  have hnewest := h.newest
  rw [hkept] at hnewest
  obtain ⟨b, hb, rfl⟩ := Option.map_eq_some_iff.1 hnewest
  refine ⟨b, hb, ?_⟩
  rw [(h.program b hb hfirst).1, versions, ← hfirst]

theorem Current.calls_program (h : Current build c kept) (w : World) :
    ((Compilation.program w).run c).calls = [] ↔ c.versions ∈ kept := by
  have hnone (hc : c.current? = none) : c.versions ∉ kept := by
    intro hm
    obtain ⟨b, hb, hbv⟩ := h.built_of_mem hm rfl
    rw [current?_eq_some.2 ⟨b, hb, hbv, rfl⟩] at hc
    cases hc
  rcases run_program_cases w c with
    ⟨latest, hc, hrun⟩ | ⟨hc, reason, -, hrun⟩ | ⟨hc, latest, -, hrun⟩
  · obtain ⟨b, hb, hbv, -⟩ := current?_eq_some.1 hc
    rw [hrun]
    exact iff_of_true rfl (hbv ▸ (h.built_le hb).1)
  · rw [hrun]
    exact iff_of_false (List.cons_ne_nil _ _) (hnone hc)
  · rw [hrun]
    exact iff_of_false (List.cons_ne_nil _ _) (hnone hc)

theorem Current.ask (h : Current build c kept) (hw : w.compiler.build = build) :
    Current build ((Compilation.program w).run c).state (Step.note kept (.ask w c)) := by
  have hcalls := h.calls_program w
  rw [Step.note]
  rcases run_program_cases w c with
    ⟨latest, -, hrun⟩ | ⟨-, reason, -, hrun⟩ | ⟨-, latest, hbuild, hrun⟩
  · rw [hrun, if_neg (by simp)]
    exact h
  · rw [hrun, if_neg (by simp)]
    exact h
  · rw [hrun] at hcalls
    rw [hrun, if_pos (by simp)]
    have hnew : c.versions ∉ kept := fun hm ↦ by simpa using hcalls.2 hm
    refine ⟨rfl, List.pairwise_cons.2 ⟨?_, h.falling⟩, ?_, ?_⟩
    · intro v hv
      have hle := h.past v hv
      refine Nat.lt_of_le_of_ne hle fun hg ↦ hnew ?_
      obtain ⟨b, hb, hbv⟩ := h.built_of_mem hv hg
      exact hbv ▸ (h.built_le hb).1
    · intro v hv
      rcases List.mem_cons.1 hv with rfl | hv
      · exact Nat.le_refl _
      · exact h.past v hv
    · intro b hb _
      obtain rfl := Option.some.inj hb
      exact ⟨rfl, hw ▸ hbuild⟩

/-- What is known of the program stays known along steps, and at every step. -/
theorem Current.leads {steps : List Step} (h : Current build c kept)
    (hl : Leads build c steps c') : Current build c' (steps.foldl Step.note kept) := by
  induction hl generalizing kept with
  | done c => exact h
  | change hc _ ih => exact ih (h.change hc)
  | drop _ ih => exact ih (Current.drop build _)
  | ask hw _ ih => exact ih (h.ask hw)

theorem Current.asked {steps before after : List Step} (h : Current build c kept)
    (hl : Leads build c steps c') (hs : steps = before ++ .ask w c₁ :: after) :
    w.compiler.build = build ∧ Current build c₁ (before.foldl Step.note kept) := by
  induction hl generalizing kept before with
  | done c => simp at hs
  | change hc _ ih => exact ih (h.change hc) hs
  | drop _ ih =>
    cases before with
    | nil => cases hs
    | cons step before =>
      obtain ⟨rfl, hrest⟩ := List.cons.inj hs
      have hasked := ih (Current.drop build _) hrest
      exact hasked
  | ask hw _ ih =>
    cases before with
    | nil =>
      obtain ⟨hstep, -⟩ := List.cons.inj hs
      obtain ⟨rfl, rfl⟩ := Step.ask.inj hstep
      exact ⟨hw, h⟩
    | cons step before =>
      obtain ⟨rfl, hrest⟩ := List.cons.inj hs
      have hasked := ih (h.ask hw) hrest
      exact hasked

end Keeping

theorem changes_update (c : Compilation) (p : Path) (text : String) (checked : Bool) :
    Changes c (c.update p text checked).2 :=
  ⟨c.files.advances_update p text checked, rfl, rfl⟩

theorem changes_rename (c : Compilation) (source target : Path) :
    Changes c (c.rename source target).2 := by
  have hfiles := c.files.advances_rename source target
  rw [Compilation.rename]
  rcases hrename : c.files.rename source target with ⟨moved, files⟩
  rw [hrename] at hfiles
  cases moved with
  | true => exact ⟨hfiles, rfl, rfl⟩
  | false => exact ⟨.refl _, rfl, rfl⟩

theorem changes_check (w : World) (p : Path) (c : Compilation) :
    Changes c ((Compilation.check w p).run c).state := by
  rw [run_check]
  exact ⟨Walk.advances_run w c.options (c.walk p), rfl, rfl⟩

theorem changes_fetch (w : World) (p : Path) (c : Compilation) :
    Changes c ((Compilation.fetch w p).run c).state := by
  rw [fetch, run_bind, run_call]
  cases w.files.read p with
  | error cause => exact ⟨.refl _, rfl, rfl⟩
  | ok text => exact changes_update c p text true

theorem changes_onDeps {α : Type} (a : Action Dependencies CompileError α) (c : Compilation) :
    Changes c ((onDeps a).run c).state := ⟨.refl _, rfl, rfl⟩

theorem idle_transpile (w : World) (p : Path) : Idle (transpile w p) := by
  refine idle_get.seq fun c ↦ ?_
  split
  · exact idle_fail _
  · split
    · exact (idle_call rfl).seq fun _ ↦ idle_fail _
    · exact (idle_call rfl).seq fun _ ↦ idle_pure _

theorem filter_calls_program (w : World) (c : Compilation) :
    ((program w).run c).calls.filter Call.isBuild = ((program w).run c).calls := by
  rcases run_program_cases w c with
    ⟨latest, -, hrun⟩ | ⟨-, reason, -, hrun⟩ | ⟨-, latest, -, hrun⟩ <;> rw [hrun] <;> rfl

theorem idle_emitted (p : Path) (latest : Program) : Idle (if latest.contains p.normalize then
    match latest.emit p.normalize with
    | .ok output => pure output
    | .error reason => Action.fail (.compiler reason)
    else Action.fail (.noOutput p.normalize) : Act EmitOutput) := by
  split
  · split
    · exact idle_pure _
    · exact idle_fail _
  · exact idle_fail _

theorem leads_emitOutput (hw : w.compiler.build = build) (p : Path) (c : Compilation) :
    Leads build c (asks w p c) ((emitOutput w p).run c).state ∧
      ((emitOutput w p).run c).calls.filter Call.isBuild = (asks w p c).flatMap Step.calls := by
  have hask : Leads build c [.ask w c] ((program w).run c).state := .ask hw (.done _)
  have hfilter := filter_calls_program w c
  rw [emitOutput]
  cases hr : ((program w).run c).result with
  | error e =>
    have hasks : asks w p c = [.ask w c] := by simp [asks, hr]
    rw [run_bind_of_error hr, hasks, List.flatMap_singleton]
    exact ⟨hask, hfilter⟩
  | ok first =>
    rw [run_bind_of_ok hr]
    let c₁ := ((program w).run c).state
    cases hc : first.contains p.normalize with
    | true =>
      have hasks : asks w p c = [.ask w c] := by simp [asks, hr, hc]
      obtain ⟨hstate, hcalls⟩ := Idle.bind (a := (pure first : Act Program)) (idle_emitted p) c₁
      rw [hasks, List.flatMap_singleton]
      refine ⟨?_, ?_⟩
      · exact hstate.symm ▸ hask
      · simp only [Outcome.after, List.filter_append, hfilter]
        exact (congrArg _ hcalls).trans (List.append_nil _)
    | false =>
      have hasks : asks w p c = [.ask w c, .drop, .ask w c₁.dropProgram] := by
        simp [asks, hr, hc, c₁]
      obtain ⟨hstate, hcalls⟩ := Idle.bind
        (a := (do Action.modify dropProgram; program w : Act Program)) (idle_emitted p) c₁
      have hagain : (do Action.modify dropProgram; program w : Act Program).run c₁ =
          (program w).run c₁.dropProgram := by
        rw [run_bind, run_modify]
        rfl
      rw [hagain] at hstate hcalls
      rw [hasks]
      refine ⟨?_, ?_⟩
      · have hsteps : Leads build c [.ask w c, .drop, .ask w c₁.dropProgram]
            ((program w).run c₁.dropProgram).state := .ask hw (.drop (.ask hw (.done _)))
        exact hstate.symm ▸ hsteps
      · have hcalls := hcalls.trans (filter_calls_program w c₁.dropProgram)
        simp only [Outcome.after, List.filter_append, hfilter, List.flatMap_cons, List.flatMap_nil,
          Step.calls, List.nil_append, List.append_nil]
        exact congrArg _ hcalls

theorem idle_compiled (p : Path) (output : EmitOutput) :
    Idle (if output.skipped then Action.fail (.skipped p.normalize)
      else
        match output.script? with
        | none => Action.fail (.noOutput p.normalize)
        | some script => pure { text := script.text, sourceMap := output.sourceMap?.map (·.text) }
      : Act Compiled) := by
  split
  · exact idle_fail _
  · split
    · exact idle_fail _
    · exact idle_pure _

theorem leads_emit (hw : w.compiler.build = build) (p : Path) (c : Compilation) :
    Leads build c (asks w p c) ((emit w p).run c).state ∧
      ((emit w p).run c).calls.filter Call.isBuild = (asks w p c).flatMap Step.calls := by
  obtain ⟨hstate, hcalls⟩ := Idle.bind (a := emitOutput w p) (idle_compiled p) c
  obtain ⟨hleads, hbuilds⟩ := leads_emitOutput hw p c
  rw [emit]
  exact ⟨hstate.symm ▸ hleads, hcalls.trans hbuilds⟩

theorem idle_recovered (w : World) (p : Path) (r : Except CompileError Compiled) :
    Idle (match r with
      | .ok compiled => pure compiled
      | .error e =>
        if e.isMissingOutput then do
          let fast ← transpile w p
          let c ← Action.get
          if fast.text.isEmpty && !c.isBlank p then Action.fail e else pure fast
        else Action.fail e : Act Compiled) := by
  split
  · exact idle_pure _
  · split
    · refine (idle_transpile w p).seq fun fast ↦ idle_get.seq fun c ↦ ?_
      split
      · exact idle_fail _
      · exact idle_pure _
    · exact idle_fail _

theorem leads_emitOrTranspile (hw : w.compiler.build = build) (p : Path) (c : Compilation) :
    Leads build c (asks w p c) ((emitOrTranspile w p false).run c).state ∧
      ((emitOrTranspile w p false).run c).calls.filter Call.isBuild =
        (asks w p c).flatMap Step.calls := by
  obtain ⟨hstate, hcalls⟩ := Idle.bind (a := ((emit w p).attempt : Act _)) (idle_recovered w p) c
  obtain ⟨hleads, hbuilds⟩ := leads_emit hw p c
  exact ⟨hstate.symm ▸ hleads, hcalls.trans hbuilds⟩

theorem idle_reported (w : World) (f : DiagnosticFilter) (context : Path) (latest : Program) :
    Idle (do
      let c ← Action.get
      match (latest.diagnostics f).mapM (c.report? w.coloured context) with
      | some reports => pure reports
      | none => Action.fail .messageTooDeep : Action Compilation CheckError (List Report)) := by
  refine idle_get.seq fun c ↦ ?_
  split
  · exact idle_pure _
  · exact idle_fail _

theorem leads_reports (hw : w.compiler.build = build) (f : DiagnosticFilter) (context : Path)
    (c : Compilation) : Leads build c [.ask w c] ((reports w f context).run c).state ∧
      ((reports w f context).run c).calls.filter Call.isBuild = ((program w).run c).calls := by
  obtain ⟨hstate, hcalls⟩ := Idle.bind (a := (program w).mapError CheckError.compile)
    (idle_reported w f context) c
  rw [run_mapError] at hstate hcalls
  have hask : Leads build c [.ask w c] ((program w).run c).state := .ask hw (.done _)
  rw [reports]
  exact ⟨hstate.symm ▸ hask, hcalls.trans (filter_calls_program w c)⟩

/-- An operation goes through its steps, and builds programs only there. -/
theorem Operation.leads {op : Operation} (h : op.BuildsBy build) (c : Compilation) :
    Leads build c (op.steps c) (op.run c).1 ∧
      (op.run c).2.filter Call.isBuild = (op.steps c).flatMap Step.calls := by
  cases op with
  | add p text =>
    have hc : Changes c (c.add p text) := ⟨c.files.advances_put p text 0, rfl, rfl⟩
    exact ⟨hc.leads, rfl⟩
  | update p text checked => exact ⟨(changes_update c p text checked).leads, rfl⟩
  | remove p =>
    have hc : Changes c (c.remove p).2 := ⟨c.files.advances_remove p, rfl, rfl⟩
    exact ⟨hc.leads, rfl⟩
  | rename source target => exact ⟨(changes_rename c source target).leads, rfl⟩
  | invalidate p =>
    have hc : Changes c (c.invalidate p) := ⟨.refl _, rfl, rfl⟩
    exact ⟨hc.leads, rfl⟩
  | check w p =>
    refine ⟨(changes_check w p c).leads, filter_calls_eq_nil ?_⟩
    rw [Operation.run, run_check]
    exact Walk.calls_run (c.walk p)
  | fetch w p =>
    refine ⟨(changes_fetch w p c).leads, filter_calls_eq_nil ?_⟩
    have hcalls : Calls (·.isBuild = false) (Compilation.fetch w p) := by
      refine .bind (calls_call rfl) fun _ ↦ ?_
      split
      · exact calls_fail _
      · exact calls_update _
    exact hcalls c
  | resolveModule w p name =>
    have hc : Changes c ((Compilation.resolveModule w p name).run c).state :=
      changes_onDeps (Analysis.resolveModule w c.options p name) c
    have hcalls : Calls (·.isBuild = false) (Compilation.resolveModule w p name) :=
      .bind calls_get fun _ ↦ (Analysis.calls_resolveModule (fun _ _ ↦ rfl) p name).within _ _
    exact ⟨hc.leads, filter_calls_eq_nil (hcalls c)⟩
  | resolveTypes w p name =>
    have hc : Changes c ((Compilation.resolveTypes w p name).run c).state :=
      changes_onDeps (Analysis.resolveTypes w c.options p name) c
    have hcalls : Calls (·.isBuild = false) (Compilation.resolveTypes w p name) :=
      .bind calls_get fun _ ↦ (Analysis.calls_resolveTypes (fun _ _ ↦ rfl) p name).within _ _
    exact ⟨hc.leads, filter_calls_eq_nil (hcalls c)⟩
  | dropProgram => exact ⟨.drop (.done _), rfl⟩
  | program w =>
    refine ⟨.ask h (.done _), ?_⟩
    rw [Operation.run, Operation.steps, List.flatMap_singleton]
    exact filter_calls_program w c
  | emitOutput w p => exact leads_emitOutput h p c
  | emit w p => exact leads_emit h p c
  | emitOrTranspile w p transpileOnly =>
    cases transpileOnly with
    | true =>
      obtain ⟨hstate, hcalls⟩ := idle_transpile w p
      have hleads : Leads build c [] ((transpile w p).run c).state :=
        (hstate c).symm ▸ Leads.done c
      exact ⟨hleads, filter_calls_eq_nil (hcalls c)⟩
    | false => exact leads_emitOrTranspile h p c
  | reports w f context =>
    obtain ⟨hleads, hcalls⟩ := leads_reports h f context c
    rw [Operation.run, Operation.steps, List.flatMap_singleton]
    exact ⟨hleads, hcalls⟩

theorem leads_trace {ops : List Operation} (h : ∀ op ∈ ops, op.BuildsBy build) (c : Compilation) :
    Leads build c (c.trace ops) (c.perform ops).1 ∧
      (c.perform ops).2.filter Call.isBuild = (c.trace ops).flatMap Step.calls := by
  induction ops generalizing c with
  | nil => exact ⟨.done c, rfl⟩
  | cons op rest ih =>
    obtain ⟨hop, hrest⟩ := List.forall_mem_cons.1 h
    obtain ⟨hleads, hcalls⟩ := Operation.leads hop c
    obtain ⟨hleads', hcalls'⟩ := ih hrest (op.run c).1
    rw [trace, perform, List.flatMap_append, ← hcalls, ← hcalls']
    exact ⟨hleads.trans hleads', List.filter_append ..⟩

theorem Tidy.rename (h : c.Tidy) (source target : Path) : (c.rename source target).2.Tidy := by
  have hfiles := c.files.case_rename source target
  have hkept := h.kept.rename source target
  rw [Compilation.rename]
  rcases hrename : c.files.rename source target with ⟨moved, files⟩
  rw [hrename] at hfiles hkept
  cases moved with
  | false => exact h
  | true =>
    refine ⟨h.case.trans hfiles.symm, hkept, fun key hv ↦ ?_⟩
    obtain ⟨htarget, hv⟩ := Analysis.isValid_of_insert_invalid hv
    obtain ⟨hsource, hv⟩ := Analysis.isValid_of_erase hv
    have hstored := Std.ExtTreeMap.mem_iff_isSome_getElem?.1 (h.stored key hv)
    refine Std.ExtTreeMap.mem_iff_isSome_getElem?.2 ?_
    cases hf : c.files.get? source with
    | none =>
      rw [FileStore.rename, hf] at hrename
      cases hrename
    | some file =>
      have hkey (q : Path) : files.key q = c.files.key q := FileStore.key_eq_key_of_case hfiles q
      have hget := FileStore.getElem?_rename hf target key
      rw [hrename, if_neg fun he ↦ htarget ((hkey target).trans he),
        if_neg fun he ↦ hsource ((hkey source).trans he)] at hget
      exact (congrArg Option.isSome hget).trans hstored

theorem Tidy.onDeps {α : Type} (h : c.Tidy) {a : Action Dependencies CompileError α}
    (ha : (a.run c.deps).state.case = c.deps.case) : ((onDeps a).run c).state.Tidy :=
  ⟨ha.trans h.case, h.kept, h.stored⟩

theorem Tidy.operation (h : c.Tidy) (op : Operation) : (op.run c).1.Tidy := by
  have hbuilt : ∀ (c : Compilation) (built : Option BuiltProgram), c.Tidy →
      ({ c with built } : Compilation).Tidy := fun _ _ h ↦ ⟨h.case, h.kept, h.stored⟩
  cases op with
  | add p text =>
    exact ⟨h.case, h.kept.add p text, fun key hv ↦
      (FileStore.mem_put c.files p text 0 key).2 (Or.inr (h.stored key hv))⟩
  | update p text checked => exact h.update p text checked
  | remove p => exact h.remove p
  | rename source target => exact h.rename source target
  | invalidate p => exact h.invalidate p
  | check w p => exact h.check w p
  | fetch w p =>
    rw [Operation.run, fetch, Action.run_bind, Action.run_call]
    cases w.files.read p with
    | error cause => exact h
    | ok text => exact h.update p text true
  | resolveModule w p name =>
    refine h.onDeps (a := Analysis.resolveModule w c.options p name) ?_
    rw [Action.run, Analysis.resolveModule]
    repeat' split
    all_goals rfl
  | resolveTypes w p name =>
    refine h.onDeps (a := Analysis.resolveTypes w c.options p name) ?_
    rw [Action.run, Analysis.resolveTypes]
    repeat' split
    all_goals rfl
  | dropProgram => exact h.dropProgram
  | program w => exact keeps_program w hbuilt c h
  | emitOutput w p => exact keeps_emitOutput w p hbuilt c h
  | emit w p => exact keeps_emit w p hbuilt c h
  | emitOrTranspile w p transpileOnly => exact keeps_emitOrTranspile w p hbuilt transpileOnly c h
  | reports w f context => exact keeps_reports w hbuilt f context c h

theorem Tidy.perform (h : c.Tidy) (ops : List Operation) : (c.perform ops).1.Tidy := by
  induction ops generalizing c with
  | nil => exact h
  | cons op rest ih => exact ih (h.operation op)

def Fresh (build : Host → Except String Program) (c : Compilation) : Prop :=
  ∀ latest, c.current? = some latest → build c.host = .ok latest

theorem Current.fresh {kept : List (Nat × Nat)} (h : Current build c kept) : c.Fresh build := by
  intro latest hc
  obtain ⟨b, hb, hbv, rfl⟩ := current?_eq_some.1 hc
  exact (h.program b hb (Prod.mk.inj hbv).2).2

theorem fresh_dropProgram (build : Host → Except String Program) (c : Compilation) :
    c.dropProgram.Fresh build := by
  intro latest hc
  cases hc

theorem Fresh.result_program (h : c.Fresh build) (hw : w.compiler.build = build) :
    ((program w).run c).result = (build c.host).mapError .compiler := by
  rcases run_program_cases w c with
    ⟨latest, hc, hrun⟩ | ⟨-, reason, hbuild, hrun⟩ | ⟨-, latest, hbuild, hrun⟩
  · rw [hrun, h latest hc]
    rfl
  · rw [hrun, ← hw, hbuild]
    rfl
  · rw [hrun, ← hw, hbuild]
    rfl

theorem Fresh.program (h : c.Fresh build) (hw : w.compiler.build = build) :
    ((Compilation.program w).run c).state.Fresh build := by
  rcases run_program_cases w c with
    ⟨latest, hc, hrun⟩ | ⟨-, reason, hbuild, hrun⟩ | ⟨-, latest, hbuild, hrun⟩
  · exact hrun ▸ h
  · exact hrun ▸ h
  · rw [hrun]
    intro latest' hc
    obtain ⟨b, hb, -, rfl⟩ := current?_eq_some.1 hc
    obtain rfl := Option.some.inj hb
    exact hw ▸ hbuild

theorem dropProgram_program (w : World) (c : Compilation) :
    ((program w).run c).state.dropProgram = c.dropProgram := by
  rcases run_program_cases w c with
    ⟨latest, -, hrun⟩ | ⟨-, reason, -, hrun⟩ | ⟨-, latest, -, hrun⟩
  · rw [hrun]
  · rw [hrun]
  · rw [hrun]
    rfl

theorem dropProgram_emit (w : World) (p : Path) (c : Compilation) :
    ((emit w p).run c).state.dropProgram = c.dropProgram :=
  keeps_emit w p (P := fun c' ↦ c'.dropProgram = c.dropProgram) (fun _ _ h ↦ h) c rfl

theorem dropProgram_emitOrTranspile (w : World) (p : Path) (transpileOnly : Bool)
    (c : Compilation) :
    ((emitOrTranspile w p transpileOnly).run c).state.dropProgram = c.dropProgram :=
  keeps_emitOrTranspile w p (P := fun c' ↦ c'.dropProgram = c.dropProgram) (fun _ _ h ↦ h)
    transpileOnly c rfl

/-- Compilations that differ at most in the program that is kept. -/
structure Twins (build : Host → Except String Program) (c c' : Compilation) : Prop where
  same : c'.dropProgram = c.dropProgram
  left : c.Fresh build
  right : c'.Fresh build

def Transparent {ε α : Type} (build : Host → Except String Program)
    (a : Action Compilation ε α) : Prop :=
  ∀ c c', Twins build c c' → (a.run c').result = (a.run c).result ∧
    Twins build (a.run c).state (a.run c').state

section Transparent

variable {ε δ α β : Type}

theorem transparent_pure (x : α) : Transparent build (pure x : Action Compilation ε α) :=
  fun _ _ h ↦ ⟨rfl, h⟩

theorem transparent_fail (e : ε) : Transparent build (fail e : Action Compilation ε α) :=
  fun _ _ h ↦ ⟨rfl, h⟩

theorem transparent_call (call : Call) :
    Transparent build (Action.call call : Action Compilation ε Unit) := fun _ _ h ↦ ⟨rfl, h⟩

theorem transparent_dropProgram :
    Transparent build (modify dropProgram : Action Compilation ε Unit) :=
  fun c c' h ↦ ⟨rfl, h.same, fresh_dropProgram build c, fresh_dropProgram build c'⟩

theorem transparent_get_bind {f : Compilation → Action Compilation ε β}
    (hf : ∀ c, f c = f c.dropProgram) (h : ∀ c, Transparent build (f c)) :
    Transparent build (get >>= f) := by
  intro c c' ht
  have hsame : f c' = f c := by
    rw [hf c', ht.same, ← hf c]
  have hrun (c : Compilation) : (get >>= f : Action Compilation ε β).run c = (f c).run c := rfl
  rw [hrun, hrun, hsame]
  exact h c c c' ht

theorem Transparent.bind {a : Action Compilation ε α} {f : α → Action Compilation ε β}
    (ha : Transparent build a) (hf : ∀ x, Transparent build (f x)) :
    Transparent build (a >>= f) := by
  intro c c' ht
  obtain ⟨hresult, ht'⟩ := ha c c' ht
  cases hr : (a.run c).result with
  | error e =>
    rw [run_bind_of_error hr, run_bind_of_error (hresult.trans hr)]
    exact ⟨rfl, ht'⟩
  | ok x =>
    rw [run_bind_of_ok hr, run_bind_of_ok (hresult.trans hr)]
    exact hf x _ _ ht'

theorem Transparent.mapError {a : Action Compilation ε α} (ha : Transparent build a) (f : ε → δ) :
    Transparent build (a.mapError f) := by
  intro c c' ht
  obtain ⟨hresult, ht'⟩ := ha c c' ht
  rw [run_mapError, run_mapError, hresult]
  exact ⟨rfl, ht'⟩

theorem Transparent.attempt {a : Action Compilation ε α} (ha : Transparent build a) :
    Transparent build (a.attempt : Action Compilation δ (Except ε α)) := by
  intro c c' ht
  obtain ⟨hresult, ht'⟩ := ha c c' ht
  exact ⟨congrArg Except.ok hresult, ht'⟩

theorem transparent_program (hw : w.compiler.build = build) : Transparent build (program w) := by
  intro c c' ht
  have hhost : c'.dropProgram.host = c.dropProgram.host := by rw [ht.same]
  have hhost : c'.host = c.host := hhost
  refine ⟨?_, ?_, ht.left.program hw, ht.right.program hw⟩
  · rw [ht.left.result_program hw, ht.right.result_program hw, hhost]
  · rw [dropProgram_program, dropProgram_program, ht.same]

theorem transparent_emitted (p : Path) (latest : Program) :
    Transparent build (if latest.contains p.normalize then
      match latest.emit p.normalize with
      | .ok output => pure output
      | .error reason => Action.fail (.compiler reason)
      else Action.fail (.noOutput p.normalize) : Act EmitOutput) := by
  split
  · split
    · exact transparent_pure _
    · exact transparent_fail _
  · exact transparent_fail _

theorem transparent_emitOutput (hw : w.compiler.build = build) (p : Path) :
    Transparent build (emitOutput w p) := by
  refine .bind (transparent_program hw) fun first ↦ ?_
  split
  · exact .bind (transparent_pure first) (transparent_emitted p)
  · exact .bind transparent_dropProgram fun _ ↦
      .bind (transparent_program hw) (transparent_emitted p)

theorem transparent_emit (hw : w.compiler.build = build) (p : Path) :
    Transparent build (emit w p) := by
  refine .bind (transparent_emitOutput hw p) fun output ↦ ?_
  split
  · exact transparent_fail _
  · split
    · exact transparent_fail _
    · exact transparent_pure _

theorem transparent_transpile (w : World) (p : Path) : Transparent build (transpile w p) := by
  refine transparent_get_bind (fun _ ↦ rfl) fun c ↦ ?_
  split
  · exact transparent_fail _
  · split
    · exact .bind (transparent_call _) fun _ ↦ transparent_fail _
    · exact .bind (transparent_call _) fun _ ↦ transparent_pure _

theorem transparent_emitOrTranspile (hw : w.compiler.build = build) (p : Path)
    (transpileOnly : Bool) : Transparent build (emitOrTranspile w p transpileOnly) := by
  rw [emitOrTranspile]
  split
  · exact transparent_transpile w p
  · refine .bind (transparent_emit hw p).attempt fun result ↦ ?_
    split
    · exact transparent_pure _
    · split
      · refine .bind (transparent_transpile w p) fun fast ↦
          transparent_get_bind (fun _ ↦ rfl) fun c ↦ ?_
        split
        · exact transparent_fail _
        · exact transparent_pure _
      · exact transparent_fail _

theorem transparent_reports (hw : w.compiler.build = build) (f : DiagnosticFilter)
    (context : Path) : Transparent build (reports w f context) := by
  refine .bind ((transparent_program hw).mapError _) fun latest ↦
    transparent_get_bind (fun _ ↦ rfl) fun c ↦ ?_
  split
  · exact transparent_pure _
  · exact transparent_fail _

end Transparent

/-- Whenever the program is asked for, it is what the compiler builds from the files
as they are; the compiler is called for it exactly when it has built none for their
versions since the last was dropped, and for nothing else. So scripts and
diagnostics are those without a program that is kept. -/
theorem program_as_built (build : Host → Except String Program) (options : Json.Object)
    (case : PathCase) (ops : List Operation) (h : ∀ op ∈ ops, op.BuildsBy build) :
    let c₀ := make options case
    (∀ before w c after, c₀.trace ops = before ++ .ask w c :: after →
      ((program w).run c).result = (build c.host).mapError .compiler ∧
        (((program w).run c).calls = [] ↔ c.versions ∈ keptAfter before)) ∧
    (c₀.perform ops).2.filter Call.isBuild = (c₀.trace ops).flatMap Step.calls ∧
    let c := (c₀.perform ops).1
    ∀ w, w.compiler.build = build → ∀ p transpileOnly f context,
      ((emitOutput w p).run c).result = ((emitOutput w p).run c.dropProgram).result ∧
      ((emit w p).run c).result = ((emit w p).run c.dropProgram).result ∧
      ((emitOrTranspile w p transpileOnly).run c).result =
        ((emitOrTranspile w p transpileOnly).run c.dropProgram).result ∧
      ((reports w f context).run c).result = ((reports w f context).run c.dropProgram).result := by
  intro c₀
  obtain ⟨hleads, hcalls⟩ := leads_trace h c₀
  have hstart := current_make build options case
  refine ⟨?_, hcalls, ?_⟩
  · intro before w c after hs
    obtain ⟨hw, hc⟩ := hstart.asked hleads hs
    exact ⟨hc.fresh.result_program hw, hc.calls_program w⟩
  · intro c w hw p transpileOnly f context
    have htwins : Twins build c.dropProgram c :=
      ⟨rfl, fresh_dropProgram build c, (hstart.leads hleads).fresh⟩
    exact ⟨(transparent_emitOutput hw p _ _ htwins).1, (transparent_emit hw p _ _ htwins).1,
      (transparent_emitOrTranspile hw p transpileOnly _ _ htwins).1,
      (transparent_reports hw f context _ _ htwins).1⟩

/-- Lists the files as its source files, and gives their texts as scripts. -/
def listing (host : Host) : Except String Program := .ok {
  sourceFiles := host.fileNames
  contains p := (host.snapshot p).isSome
  emit p := match host.snapshot p with
    | some text => .ok { files := [⟨p.withExtension "js", text, false⟩] }
    | none => .error "missing"
  optionsDiagnostics := []
  globalDiagnostics := []
  syntacticDiagnostics _ := []
  semanticDiagnostics _ := [] }

/-- After an analysis that fails, the program is built once and then kept. -/
theorem program_kept_after_failure :
    let w : World := {
      compiler := { (World.importing ⟨[]⟩).compiler with build := listing }
      files := (World.importing ⟨[]⟩).files }
    let ops : List Operation := [.update ⟨"/a.ts"⟩ "/b.ts" true, .check w ⟨"/a.ts"⟩, .program w,
      .program w]
    let c := ((make [] .sensitive).perform (ops.take 3)).1
    (∀ op ∈ ops, op.BuildsBy listing) ∧
      ((program w).run c).result = (listing c.host).mapError .compiler ∧
      ((program w).run c).calls = [] := by
  intro w ops c
  have hops : ∀ op ∈ ops, op.BuildsBy listing := by
    simp only [ops, List.forall_mem_cons]
    exact ⟨trivial, trivial, rfl, rfl, by simp⟩
  let c₁ := ((make [] .sensitive).perform (ops.take 2)).1
  obtain ⟨hasked, -⟩ := program_as_built listing [] .sensitive ops hops
  obtain ⟨hresult, hcalls⟩ := hasked [.ask w c₁] w c [] rfl
  have hnone : c₁.current? = none := by
    have hbuilt : c₁.built = none := (changes_check w ⟨"/a.ts"⟩ _).built
    rw [current?, hbuilt]
    rfl
  refine ⟨hops, hresult, hcalls.2 ?_⟩
  rw [keptAfter, List.foldl_cons, List.foldl_nil, Step.note]
  rcases run_program_cases w c₁ with
    ⟨latest, hc, -⟩ | ⟨-, reason, hbuild, -⟩ | ⟨-, latest, -, hrun⟩
  · rw [hnone] at hc
    cases hc
  · cases hbuild
  · have hversions : c.versions = c₁.versions := congrArg (fun o ↦ o.state.versions) hrun
    rw [hrun, if_pos (List.mem_singleton_self _), hversions]
    exact List.mem_cons_self

end Steps

end Compilation

end TypedLoader
