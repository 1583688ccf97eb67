import Mathlib.Data.List.Flatten
import TypedLoader.Checker.Findings

namespace TypedLoader

theorem flatMap_filter_eq_iff {α β : Type} (q : α → Bool) (g : α → List β) (l : List α) :
    (l.filter q).flatMap g = l.flatMap g ↔ ∀ x ∈ l, q x = false → g x = [] := by
  induction l with
  | nil => simp
  | cons x l ih =>
    rw [List.forall_mem_cons, ← ih]
    cases hx : q x with
    | true =>
      rw [List.filter_cons_of_pos hx, List.flatMap_cons, List.flatMap_cons,
        List.append_cancel_left_eq]
      simp
    | false =>
      rw [List.filter_cons_of_neg (by simp [hx]), List.flatMap_cons]
      refine ⟨fun h ↦ ?_, fun ⟨hnone, hrest⟩ ↦ ?_⟩
      · have hle : ((l.filter q).flatMap g).length ≤ (l.flatMap g).length :=
          (List.filter_sublist.flatMap g).length_le
        have hnone : g x = [] := by
          have hlength := congrArg List.length h
          rw [List.length_append] at hlength
          exact List.eq_nil_of_length_eq_zero (by omega)
        rw [hnone, List.nil_append] at h
        exact ⟨fun _ ↦ hnone, h⟩
      · rw [hnone rfl, List.nil_append, hrest]

namespace DiagnosticFilter

theorem keeps_eq {f : DiagnosticFilter} {d : Diagnostic} {file : Path} (hfile : file.text ≠ "")
    (hname : d.file = file.text) : f.keeps d = (!f.ignored.contains d.code && f.checks file) := by
  have hd : d.hasFile = true := by simp [Diagnostic.hasFile, hname, hfile]
  rw [keeps, hd, hname]
  rfl

end DiagnosticFilter

namespace Program

variable {p : Program} {f : DiagnosticFilter}

def findings (p : Program) (file : Path) : List Diagnostic :=
  p.syntacticDiagnostics file ++ p.semanticDiagnostics file

def allDiagnostics (p : Program) : List Diagnostic :=
  p.optionsDiagnostics ++ p.globalDiagnostics ++ p.sourceFiles.flatMap p.findings

theorem diagnostics_eq (p : Program) (f : DiagnosticFilter) : p.diagnostics f =
    (p.optionsDiagnostics ++ p.globalDiagnostics ++
      (p.sourceFiles.filter f.checks).flatMap p.findings).filter f.keeps := rfl

/-- Skipping files changes nothing exactly when nothing that is found in them would be kept. -/
theorem diagnostics_eq_iff : p.diagnostics f = p.allDiagnostics.filter f.keeps ↔
    ∀ file ∈ p.sourceFiles, f.checks file = false → ∀ d ∈ p.findings file, f.keeps d = false := by
  have hskipped (file : Path) : (p.findings file).filter f.keeps = [] ↔
      ∀ d ∈ p.findings file, f.keeps d = false := by
    simp only [List.filter_eq_nil_iff, Bool.not_eq_true]
  have hfiles := flatMap_filter_eq_iff f.checks (fun file ↦ (p.findings file).filter f.keeps)
    p.sourceFiles
  simp only [hskipped] at hfiles
  rw [← hfiles, diagnostics_eq, allDiagnostics]
  simp only [List.filter_append, List.append_cancel_left_eq, List.filter_flatMap]

structure NamesFiles (p : Program) : Prop where
  nonempty : ∀ file ∈ p.sourceFiles, file.text ≠ ""
  named : ∀ file ∈ p.sourceFiles, ∀ d ∈ p.findings file, d.file = file.text

/-- Files that are not checked need not be asked for: what is reported is what the filter keeps of
all that is found. -/
theorem diagnostics_eq_filter (h : p.NamesFiles) (f : DiagnosticFilter) :
    p.diagnostics f = p.allDiagnostics.filter f.keeps := by
  refine diagnostics_eq_iff.2 fun file hfile hskip d hd ↦ ?_
  rw [DiagnosticFilter.keeps_eq (h.nonempty file hfile) (h.named file hfile d hd), hskip,
    Bool.and_false]

def wrongEverywhere (files : List Path) : Program where
  sourceFiles := files
  contains file := files.contains file
  emit _ := .error "missing"
  optionsDiagnostics := []
  globalDiagnostics := [⟨.warning, 18003, "", 0, 0, .node "no inputs" []⟩]
  syntacticDiagnostics _ := []
  semanticDiagnostics file := [⟨.error, 2304, file.text, 0, 1, .node "unknown name" []⟩]

/-- Of three files a declaration file and one that no pattern matches are skipped. -/
theorem diagnostics_eq_filter_of_patterns :
    let p := wrongEverywhere [⟨"/p/a.ts"⟩, ⟨"/p/lib.d.ts"⟩, ⟨"/p/b.js"⟩]
    let f : DiagnosticFilter :=
      { skipDeclarations := true, reported := some [⟨[.star, .literal 't', .literal 's']⟩],
        ignored := [18003], context := ⟨"/p"⟩ }
    p.NamesFiles ∧ p.sourceFiles.filter f.checks = [⟨"/p/a.ts"⟩] ∧
      p.diagnostics f = p.allDiagnostics.filter f.keeps := by
  intro p f
  have hnames : p.NamesFiles := by
    refine ⟨by decide, fun file _ d hd ↦ ?_⟩
    obtain rfl := List.mem_singleton.1 hd
    rfl
  exact ⟨hnames, by decide +kernel, diagnostics_eq_filter hnames f⟩

end Program

end TypedLoader
