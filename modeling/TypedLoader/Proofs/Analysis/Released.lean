import TypedLoader.Proofs.Alone
import TypedLoader.Proofs.Analysis.Closed

namespace TypedLoader

open Analysis (Links Walk)

namespace Analysis.Links

theorem queue_announce (l : Links) (p : Path) :
    (l.announce p).queue = if l.deps.isKnown p then l.queue else l.queue ++ [p] := by
  rw [announce, Dependencies.mark]
  cases l.deps.isKnown p <;> rfl

end Analysis.Links

namespace Compilation

variable {w : World} {p : Path} {c : Compilation} {e : CompileError}

theorem state_of_check_error (h : ((check w p).run c).result = .error e) :
    ((check w p).run c).state =
      c.withWalk (Walk.explore w c.options (c.walk p)).state.abandon := by
  obtain ⟨hresult, hstate⟩ := Walk.run_eq_explore w c.options (c.walk p)
  rw [run_check] at h ⊢
  dsimp only at h ⊢
  rw [hresult] at h
  cases hr : (Walk.explore w c.options (c.walk p)).result with
  | ok u =>
    rw [hr] at h
    cases h
  | error e' =>
    rw [hr] at hstate
    exact congrArg c.withWalk hstate

/-- What a failed analysis has made known, and what is not valid afterwards, is released just
if it is a declaration file by its name. Then the next reference to it queues it; otherwise
a reference to types has led to it, and the next one passes it over. -/
theorem known_after_failed_check (hcase : c.deps.case = c.files.case)
    (he : ((check w p).run c).result = .error e) :
    let k := (Walk.explore w c.options (c.walk p)).state
    let c' := ((check w p).run c).state
    c' = c.withWalk k.abandon ∧
      ∀ q, k.deps.isKnown q = true → c.deps.isKnown q = false → c'.isValid q = false →
        c'.deps.isKnown q = !q.normalize.isDeclaration ∧
        (∀ queue, (Links.announce ⟨c'.deps, queue⟩ q).queue =
          if q.normalize.isDeclaration then queue ++ [q] else queue) ∧
        (q.normalize.isDeclaration = false → ∃ text file, ∃ name ∈ (w.compiler.scan text).types,
          ∃ r, w.compiler.resolveTypes name file c.options = .ok (some r) ∧
            c.deps.key r.file = c.deps.key q) := by
  intro k c'
  have hstate : c' = c.withWalk k.abandon := state_of_check_error he
  obtain ⟨hfrom, hann⟩ := Walk.explored w c.options (c := c.walk p) hcase rfl
    (List.forall_mem_singleton.2 (Path.normalize_normalize p))
  refine ⟨hstate, fun q hknown hnew hvalid ↦ ?_⟩
  have hkey (q : Path) : k.deps.key q = c.deps.key q := by
    rw [hfrom.deps_key, hfrom.key]
    exact (Analysis.key_eq_files_key hcase q).symm
  have hmem : k.deps.key q ∈ k.deps.declarations := Std.ExtTreeSet.contains_iff_mem.1 hknown
  have hunknown : k.deps.key q ∉ c.deps.declarations := by
    rw [hkey, ← Std.ExtTreeSet.contains_iff_mem]
    exact Bool.eq_false_iff.1 hnew
  have hinvalid : Analysis.isValid c.marks (c.files.key q) = false := by
    rw [hstate] at hvalid
    have hvalid : Analysis.isValid k.abandon.marks (k.files.key q) = false := hvalid
    rw [hfrom.key] at hvalid
    exact Bool.eq_false_iff.2 fun hv ↦
      Bool.eq_false_iff.1 hvalid ((hfrom.isValid_abandon _).2 hv)
  have hreleased : c'.deps.isKnown q = !q.normalize.isDeclaration := by
    rw [hstate]
    exact Walk.isKnown_abandon hfrom hann hknown hunknown hinvalid
  refine ⟨hreleased, fun queue ↦ ?_, fun hd ↦ ?_⟩
  · rw [Links.queue_announce, hreleased]
    cases q.normalize.isDeclaration <;> rfl
  · rcases hann.known _ hmem with hc | ⟨edge, hcited, hkind, hedge⟩
    · exact absurd hc hunknown
    have hsame := Walk.isDeclaration_of_key hcited.normalize_target hedge
    rcases hcited.kind_cases hkind with hdecl | ⟨-, text, file, name, hname, r, hr, htarget⟩
    · rw [hsame, hd] at hdecl
      cases hdecl
    · refine ⟨text, file, name, hname, r, hr, ?_⟩
      rw [htarget, hkey, hkey] at hedge
      exact (c.deps.case.key_normalize r.file).symm.trans hedge

end Compilation

/-- A file refers to three types. Two are found where their names say, the third cannot be
looked up. -/
def World.typed : World where
  compiler := { World.plain.compiler with
    scan := fun _ ↦ { types := ["/a.ts", "/a.d.ts", "broken"] }
    resolveTypes := fun name _ _ ↦
      if name = "broken" then .error "broken" else .ok (some ⟨⟨name⟩, true⟩) }
  files := (⟨[(⟨"/main.ts"⟩, "")]⟩ : MemoryFiles).toFileSystem

namespace Compilation

def typedStop : Outcome Walk CompileError Unit :=
  Walk.visit .typed [] (((make [] .sensitive).walk ⟨"/main.ts"⟩).enter ⟨"/main.ts"⟩ []) ⟨"/main.ts"⟩

theorem explore_typed :
    Walk.explore .typed [] ((make [] .sensitive).walk ⟨"/main.ts"⟩) = typedStop ∧
      ∃ e, typedStop.result = .error e := by
  have hfails : typedStop.result.isOk = false := by decide +kernel
  have hqueue : ((make [] .sensitive).walk ⟨"/main.ts"⟩).queue = [⟨"/main.ts"⟩] := by
    decide +kernel
  cases h : typedStop.result with
  | ok u =>
    rw [h] at hfails
    cases hfails
  | error e => exact ⟨Walk.explore_of_visit_error hqueue (by decide +kernel) h, e, rfl⟩

/-- Both types have been queued when the lookup fails, but only one of them is released. -/
theorem known_after_failed_check_typed :
    let o := (check .typed ⟨"/main.ts"⟩).run (make [] .sensitive)
    o.result.isOk = false ∧ o.state.deps.isKnown ⟨"/a.d.ts"⟩ = false ∧
      o.state.deps.isKnown ⟨"/a.ts"⟩ = true := by
  intro o
  obtain ⟨hstop, e, he⟩ := explore_typed
  have ho : o.result = .error e := by
    have hrun := (Walk.run_eq_explore .typed [] ((make [] .sensitive).walk ⟨"/main.ts"⟩)).1
    rw [hstop, he] at hrun
    rw [show o = _ from run_check ..]
    exact congrArg (Except.map _) hrun
  obtain ⟨hstate, h⟩ := known_after_failed_check (c := make [] .sensitive) rfl ho
  rw [show (make [] .sensitive).options = [] from rfl, hstop] at hstate h
  have hinvalid (q : Path)
      (hq : ((make [] .sensitive).withWalk typedStop.state.abandon).isValid q = false) :
      o.state.isValid q = false := (congrArg (isValid · q) hstate).trans hq
  refine ⟨by rw [ho]; rfl, ?_, ?_⟩
  · exact (h ⟨"/a.d.ts"⟩ (by decide +kernel) (by decide +kernel)
      (hinvalid _ (by decide +kernel))).1.trans (by decide +kernel)
  · exact (h ⟨"/a.ts"⟩ (by decide +kernel) (by decide +kernel)
      (hinvalid _ (by decide +kernel))).1.trans (by decide +kernel)

end Compilation

end TypedLoader
