import TypedLoader.Proofs.Diagnostic
import TypedLoader.Proofs.Program

namespace TypedLoader

namespace Compilation

inductive Step.Builds (host : Host) (latest : Program) : Step → Prop
  | ask {w : World} {c : Compilation} (hhost : c.host = host)
    (hbuild : w.compiler.build host = .ok latest)
    (hcall : .build true ∈ ((program w).run c).calls) : Builds host latest (.ask w c)

/-- Of the programs that the steps have built this is the last one. -/
inductive BuiltLast (host : Host) (latest : Program) : List Step → Prop
  | built {steps : List Step} {s : Step} (h : s.Builds host latest) :
    BuiltLast host latest (steps ++ [s])
  | later {steps : List Step} {s : Step} (h : BuiltLast host latest steps)
    (hs : .build true ∉ s.calls) : BuiltLast host latest (steps ++ [s])

/-- The program that is kept was built last, from files that differ from those of the
state at most if their generation does. -/
def Traced (steps : List Step) (c : Compilation) : Prop :=
  ∀ b, c.built = some b → ∃ host, BuiltLast host b.program steps ∧
    b.generation ≤ c.files.generation ∧ (b.generation = c.files.generation → c.host = host)

section Traced

variable {build : Host → Except String Program} {w : World} {c c' : Compilation}
  {steps steps' : List Step}

theorem Traced.change (h : Traced steps c) (hc : Changes c c') : Traced steps c' := by
  intro b hb
  obtain ⟨host, hlast, hle, hhost⟩ := h b (hc.built ▸ hb)
  rcases hc.files with hfiles | hlt
  · have hsame : c'.host = c.host := by
      rw [Compilation.host, Compilation.host, hfiles, hc.options]
    rw [hfiles, hsame]
    exact ⟨host, hlast, hle, hhost⟩
  · exact ⟨host, hlast, by omega, by omega⟩

theorem Traced.ask (h : Traced steps c) (w : World) :
    Traced (steps ++ [.ask w c]) ((program w).run c).state := by
  have hkept (hcalls : .build true ∉ ((program w).run c).calls) :
      Traced (steps ++ [.ask w c]) c := by
    intro b hb
    obtain ⟨host, hlast, hrest⟩ := h b hb
    exact ⟨host, .later hlast hcalls, hrest⟩
  rcases run_program_cases w c with
    ⟨latest, -, hrun⟩ | ⟨-, reason, -, hrun⟩ | ⟨-, latest, hbuild, hrun⟩
  · rw [hrun] at hkept ⊢
    exact hkept (by simp)
  · rw [hrun] at hkept ⊢
    exact hkept (by simp)
  · have hbuilds : Step.Builds c.host latest (.ask w c) := by
      refine .ask rfl hbuild ?_
      rw [hrun]
      exact List.mem_singleton_self _
    rw [hrun]
    intro b hb
    obtain rfl := Option.some.inj hb
    exact ⟨c.host, .built hbuilds, Nat.le_refl _, fun _ ↦ rfl⟩

theorem Traced.leads (h : Traced steps c) (hl : Leads build c steps' c') :
    Traced (steps ++ steps') c' := by
  induction hl generalizing steps with
  | done c =>
    rw [List.append_nil]
    exact h
  | change hc _ ih => exact ih (h.change hc)
  | @drop c c' rest _ ih =>
    have hnone : Traced (steps ++ [.drop]) c.dropProgram := by
      intro b hb
      cases hb
    have hdropped := ih hnone
    rwa [List.append_assoc] at hdropped
  | @ask w c c' rest hw _ ih =>
    have hasked := ih (h.ask w)
    rwa [List.append_assoc] at hasked

/-- A program that is got was built last, for the files as they are. -/
theorem Traced.builtLast (h : Traced steps c) {latest : Program}
    (hr : ((program w).run c).result = .ok latest) :
    BuiltLast c.host latest (steps ++ [.ask w c]) := by
  have hasked := h.ask w
  rcases run_program_cases w c with
    ⟨kept, hc, hrun⟩ | ⟨-, reason, -, hrun⟩ | ⟨-, new, hbuild, hrun⟩
  all_goals rw [hrun] at hr hasked
  · obtain rfl := Except.ok.inj hr
    obtain ⟨b, hb, hbv, rfl⟩ := current?_eq_some.1 hc
    obtain ⟨host, hlast, -, hhost⟩ := hasked b hb
    exact (hhost (Prod.mk.inj hbv).2).symm ▸ hlast
  · cases hr
  · obtain rfl := Except.ok.inj hr
    obtain ⟨host, hlast, -, hhost⟩ := hasked _ rfl
    have hhost : c.host = host := hhost rfl
    exact hhost.symm ▸ hlast

end Traced

section Reports

variable {build : Host → Except String Program} {w : World} {c : Compilation}
  {f : DiagnosticFilter} {context : Path}

theorem snapshot_host (c : Compilation) (p : Path) :
    c.host.snapshot p = (c.get? p).map (·.text) := rfl

theorem mapM_report? (c : Compilation) (coloured : Bool) (context : Path) (ds : List Diagnostic) :
    ((∃ d ∈ ds, MessageChain.maxDepth < d.message.depth) ∧
      ds.mapM (c.report? coloured context) = none) ∨
    ((∀ d ∈ ds, d.message.depth ≤ MessageChain.maxDepth) ∧
      ∃ shown, ds.mapM (c.report? coloured context) = some shown ∧
        List.Forall₂ (fun d r ↦ Report.Shows (c.host.snapshot ⟨d.file⟩) d r) ds shown) := by
  induction ds with
  | nil => exact Or.inr ⟨by simp, [], rfl, .nil⟩
  | cons d ds ih =>
    rw [List.mapM_cons]
    cases hd : c.report? coloured context d with
    | none =>
      have hdeep := Report.ofDiagnostic?_eq_none.1 hd
      exact Or.inl ⟨⟨d, List.mem_cons_self, hdeep⟩, rfl⟩
    | some r =>
      have hfits : d.message.depth ≤ MessageChain.maxDepth := by
        refine Nat.not_lt.1 fun hdeep ↦ ?_
        rw [report?, Report.ofDiagnostic?_eq_none.2 hdeep] at hd
        cases hd
      rcases ih with ⟨⟨d', hd', hdeep⟩, hnone⟩ | ⟨hall, shown, hsome, hshows⟩
      · refine Or.inl ⟨⟨d', List.mem_cons_of_mem d hd', hdeep⟩, ?_⟩
        rw [hnone]
        rfl
      · refine Or.inr ⟨List.forall_mem_cons.2 ⟨hfits, hall⟩, r :: shown, ?_, ?_⟩
        · rw [hsome]
          rfl
        · exact .cons (Report.shows_ofDiagnostic? hd) hshows

theorem run_reports_of_error {e : CompileError} (h : ((program w).run c).result = .error e) :
    ((reports w f context).run c).result = .error (.compile e) := by
  have hasked : (((program w).mapError CheckError.compile).run c).result =
      .error (.compile e) := by
    rw [Action.run_mapError, h]
    rfl
  rw [reports, Action.run_bind_of_error hasked]

theorem run_reports_of_ok {latest : Program} (f : DiagnosticFilter) (context : Path)
    (h : ((program w).run c).result = .ok latest) :
    ((reports w f context).run c).result =
      match (latest.diagnostics f).mapM (c.report? w.coloured context) with
      | some shown => .ok shown
      | none => .error .messageTooDeep := by
  have hfiles : ((program w).run c).state.dropProgram.files = c.dropProgram.files :=
    congrArg files (dropProgram_program w c)
  have hfiles : ((program w).run c).state.files = c.files := hfiles
  have hreport : report? ((program w).run c).state = report? c := by
    funext coloured context d
    rw [report?, report?, get?, get?, hfiles]
  have hasked : (((program w).mapError CheckError.compile).run c).result = .ok latest := by
    rw [Action.run_mapError, h]
    rfl
  rw [reports, Action.run_bind_of_ok hasked, Action.run_mapError]
  simp only
  rw [Action.run_get_bind, hreport]
  generalize (latest.diagnostics f).mapM (c.report? w.coloured context) = shown
  cases shown <;> rfl

/-- Either all diagnostics that are kept are shown, or none is. Their places are those in
the texts that the program was built from, and nothing but the program is replaced. -/
theorem reports_match_program (build : Host → Except String Program) (options : Json.Object)
    (case : PathCase) {ops : List Operation} (hops : ∀ op ∈ ops, op.BuildsBy build) {w : World}
    (hw : w.compiler.build = build) (f : DiagnosticFilter) (context : Path) :
    let c₀ := make options case
    let c := (c₀.perform ops).1
    let o := (reports w f context).run c
    (o.result = .error .messageTooDeep ↔ ∃ latest, build c.host = .ok latest ∧
      ∃ d ∈ latest.diagnostics f, MessageChain.maxDepth < d.message.depth) ∧
    (∀ latest, build c.host = .ok latest →
      BuiltLast c.host latest (c₀.trace ops ++ [.ask w c]) ∧
      ((∀ d ∈ latest.diagnostics f, d.message.depth ≤ MessageChain.maxDepth) →
        ∃ shown, o.result = .ok shown ∧ List.Forall₂
          (fun d r ↦ Report.Shows (c.host.snapshot ⟨d.file⟩) d r) (latest.diagnostics f) shown)) ∧
    (∀ reason, build c.host = .error reason →
      o.result = .error (.compile (.compiler reason))) ∧
    o.state.files = c.files ∧ o.state.deps = c.deps ∧ o.state.marks = c.marks := by
  intro c₀ c o
  obtain ⟨hleads, -⟩ := leads_trace hops c₀
  have hresult : ((program w).run c).result = (build c.host).mapError .compiler :=
    ((current_make build options case).leads hleads).fresh.result_program hw
  have htraced : Traced (c₀.trace ops) c := by
    have hstart : Traced [] c₀ := fun b hb ↦ by cases hb
    exact hstart.leads hleads
  have hkept : o.state.files = c.files ∧ o.state.deps = c.deps ∧ o.state.marks = c.marks := by
    refine keeps_reports w (P := fun c' ↦ c'.files = c.files ∧ c'.deps = c.deps ∧
      c'.marks = c.marks) ?_ f context c ⟨rfl, rfl, rfl⟩
    exact fun _ _ h ↦ h
  cases hbuild : build c.host with
  | error reason =>
    rw [hbuild] at hresult
    have ho : o.result = .error (.compile (.compiler reason)) := run_reports_of_error hresult
    refine ⟨?_, by simp, fun _ h ↦ ?_, hkept⟩
    · rw [ho]
      simp
    · obtain rfl := Except.error.inj h
      exact ho
  | ok latest =>
    rw [hbuild] at hresult
    have ho := run_reports_of_ok f context hresult
    have hlast := htraced.builtLast hresult
    have honly : ∀ {P : Program → Prop},
        (∃ p, (Except.ok latest : Except String Program) = .ok p ∧ P p) ↔ P latest := by
      simp
    rw [honly]
    rcases mapM_report? c w.coloured context (latest.diagnostics f) with
      ⟨hdeep, hnone⟩ | ⟨hall, shown, hsome, hshows⟩
    · rw [hnone] at ho
      refine ⟨iff_of_true ho hdeep, ?_, by simp, hkept⟩
      rintro _ ⟨⟩
      obtain ⟨d, hd, hlt⟩ := hdeep
      exact ⟨hlast, fun hall ↦ absurd (hall d hd) (Nat.not_le.2 hlt)⟩
    · rw [hsome] at ho
      have ho : o.result = .ok shown := ho
      refine ⟨?_, ?_, by simp, hkept⟩
      · rw [ho]
        refine iff_of_false (by simp) ?_
        rintro ⟨d, hd, hlt⟩
        exact absurd (hall d hd) (Nat.not_le.2 hlt)
      · rintro _ ⟨⟩
        exact ⟨hlast, fun _ ↦ ⟨shown, ho, hshows⟩⟩

end Reports

end Compilation

def Program.finding (d : Diagnostic) : Program where
  sourceFiles := []
  contains _ := false
  emit _ := .error "missing"
  optionsDiagnostics := [d]
  globalDiagnostics := []
  syntacticDiagnostics _ := []
  semanticDiagnostics _ := []

namespace Compilation

/-- The place of a finding is looked up in the text that a program was built from before
its file was made invalid. -/
theorem reports_of_kept_program :
    let d : Diagnostic := ⟨.error, 2322, "/a.ts", 2, 1, .node "wrong" []⟩
    let build (_ : Host) : Except String Program := .ok (.finding d)
    let w : World := {
      compiler := { (World.importing ⟨[]⟩).compiler with build }
      files := (World.importing ⟨[]⟩).files }
    let ops : List Operation := [.add ⟨"/a.ts"⟩ "a\nb", .program w, .invalidate ⟨"/a.ts"⟩]
    let c := ((make [] .sensitive).perform ops).1
    (∀ op ∈ ops, op.BuildsBy build) ∧ w.compiler.build = build ∧
      ∃ r, ((reports w {} ⟨"/"⟩).run c).result = .ok [r] ∧
        PlaceOf "a\nb" 2 ⟨r.line, r.character⟩ := by
  intro d build w ops c
  have hops : ∀ op ∈ ops, op.BuildsBy build := by
    simp only [ops, List.forall_mem_cons]
    exact ⟨trivial, rfl, trivial, by simp⟩
  obtain ⟨-, hok, -⟩ := reports_match_program build [] .sensitive hops (w := w) rfl {} ⟨"/"⟩
  obtain ⟨-, hshown⟩ := hok _ rfl
  have hall : ∀ d' ∈ [d], d'.message.depth ≤ MessageChain.maxDepth := by
    simp only [List.mem_singleton, forall_eq]
    decide
  obtain ⟨_, hresult, _ | ⟨hshows, _ | _⟩⟩ := hshown hall
  let c₁ := (make [] .sensitive).add ⟨"/a.ts"⟩ "a\nb"
  have hsame : ((program w).run c₁).state.dropProgram.files = c₁.dropProgram.files :=
    congrArg files (dropProgram_program w c₁)
  have hsame : c.files = c₁.files := hsame
  have hstored : c₁.files.get? ⟨"/a.ts"⟩ = some ⟨Path.normalize ⟨"/a.ts"⟩, "a\nb", 0⟩ :=
    (FileStore.getElem?_put (make [] .sensitive).files ⟨"/a.ts"⟩ "a\nb" 0 _).trans (if_pos rfl)
  have hget : c.get? ⟨"/a.ts"⟩ = some ⟨Path.normalize ⟨"/a.ts"⟩, "a\nb", 0⟩ :=
    (congrArg (FileStore.get? · ⟨"/a.ts"⟩) hsame).trans hstored
  have htext : c.host.snapshot ⟨"/a.ts"⟩ = some "a\nb" := by
    rw [snapshot_host, hget]
    rfl
  exact ⟨hops, rfl, _, hresult, hshows.place _ htext⟩

end Compilation

end TypedLoader
