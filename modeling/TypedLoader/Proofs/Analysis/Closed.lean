import TypedLoader.Compilation
import TypedLoader.Proofs.Analysis.Announced

namespace TypedLoader

open Relation (ReflTransGen)

namespace Analysis

/-- Every reference to types, in whatever text, leads to a declaration file. -/
def TypesDeclared (w : World) (options : Json.Object) : Prop :=
  ∀ text, ∀ name ∈ (w.compiler.scan text).types, ∀ file r,
    w.compiler.resolveTypes name file options = .ok (some r) → r.file.isDeclaration = true

theorem Walk.Cited.isDeclaration {w : World} {options : Json.Object} {e : Edge}
    (h : Walk.Cited w options e) (hw : TypesDeclared w options) (hk : e.kind ≠ .source) :
    e.target.isDeclaration = true := by
  rcases h.kind_cases hk with hd | ⟨-, text, file, name, hname, r, hr, htarget⟩
  · exact hd
  · rw [htarget]
    exact Path.isDeclaration_normalize_of (hw text name hname file r hr)

end Analysis

namespace Compilation

open Analysis (TypesDeclared Walk)

def walk (c : Compilation) (p : Path) : Walk :=
  { files := c.files, deps := c.deps, marks := c.marks, queue := [p.normalize] }

def withWalk (c : Compilation) (k : Walk) : Compilation :=
  { c with files := k.files, deps := k.deps, marks := k.marks }

theorem run_check (w : World) (p : Path) (c : Compilation) :
    (check w p).run c =
      let o := Walk.run w c.options (c.walk p)
      ⟨o.result.map fun _ ↦ ⟨o.state.changed, o.state.analyzed⟩, c.withWalk o.state, o.calls⟩ := by
  have hw : c.walk p = ⟨c.files, c.deps, c.marks, [p.normalize], [], false⟩ := rfl
  rw [Action.run, check, ← hw]
  cases h : (Walk.run w c.options (c.walk p)).result <;> simp only [h] <;> rfl

theorem check_of_ended? {w : World} {p : Path} {c : Compilation} {n : Nat} {k : Walk}
    (h : Walk.ended? w c.options n (c.walk p) = some k) :
    ((check w p).run c).result = .ok ⟨k.changed, k.analyzed⟩ ∧
      ((check w p).run c).state = c.withWalk k := by
  obtain ⟨hok, hstate⟩ := Walk.run_of_ended? h
  rw [run_check]
  simp only [hok, hstate]
  exact ⟨rfl, trivial⟩

theorem walk_of_check_ok {w : World} {p : Path} {c : Compilation} {analysed : Analysed}
    (hok : ((check w p).run c).result = .ok analysed) :
    ∃ k, ReflTransGen (Walk.Step w c.options) (c.walk p) k ∧ k.queue = [] ∧
      ((check w p).run c).state = c.withWalk k := by
  rw [run_check] at hok ⊢
  obtain ⟨k, hsteps, ⟨-, hstate, hq⟩ | ⟨_, _, e, _, _, _, _, _, herr, _⟩⟩ :=
    Walk.run_cases w c.options (c.walk p)
  · exact ⟨k, hsteps, hq, congrArg c.withWalk hstate⟩
  · simp only [herr] at hok
    cases hok

/-- An analysis leaves what a walk has come to at its end, or what is left when
the walk is given up at a file that it has touched last. -/
theorem state_check_cases (w : World) (p : Path) (c : Compilation) :
    (∃ k, ReflTransGen (Walk.Step w c.options) (c.walk p) k ∧ k.queue = [] ∧
      ((check w p).run c).state = c.withWalk k) ∨
    ∃ k file queue k' new added, ReflTransGen (Walk.Step w c.options) (c.walk p) k ∧
      k.queue = file :: queue ∧ Analysis.isValid k.marks (k.files.key file) = false ∧
      Walk.Touches k file queue k' new added ∧ (∀ e ∈ new, Walk.Cited w c.options e) ∧
      ((check w p).run c).state = c.withWalk k'.abandon := by
  rw [run_check]
  obtain ⟨k, hsteps, ⟨-, hstate, hq⟩ | ⟨file, queue, e, k', calls, hq, hv, hvisit, -, hstate⟩⟩ :=
    Walk.run_cases w c.options (c.walk p)
  · exact Or.inl ⟨k, hsteps, hq, congrArg c.withWalk hstate⟩
  · obtain ⟨new, added, ht, hcited⟩ := Walk.touches_of_visit hvisit
    exact Or.inr ⟨k, file, queue, k', new, added, hsteps, hq, hv, ht, hcited,
      congrArg c.withWalk hstate⟩

/-- Valid files are stored and lead to valid files, and the declaration files
known are valid. -/
structure Closed (c : Compilation) : Prop where
  stored : ∀ key, Analysis.isValid c.marks key = true → key ∈ c.files.files
  edges : ∀ key, Analysis.isValid c.marks key = true → ∀ e ∈ c.deps.edgesAt key,
    Analysis.isValid c.marks (c.files.key e.target) = true
  known : ∀ key ∈ c.deps.declarations, Analysis.isValid c.marks key = true

/-- Store and dependencies tell paths apart by case, and the store keeps to its
keys. -/
structure Sensitive (c : Compilation) : Prop where
  files_case : c.files.case = .sensitive
  deps_case : c.deps.case = .sensitive
  kept : c.files.Kept

theorem closed_make (options : Json.Object) (case : PathCase) : (make options case).Closed := by
  refine ⟨?_, ?_, ?_⟩
  · intro key h
    rw [Analysis.isValid, make, Std.ExtTreeMap.getElem?_empty] at h
    cases h
  · intro key h
    rw [Analysis.isValid, make, Std.ExtTreeMap.getElem?_empty] at h
    cases h
  · intro key h
    exact absurd h Std.ExtTreeSet.not_mem_empty

section Checking

variable {w : World} {c : Compilation} {k : Walk}

theorem Sensitive.from_walk (h : c.Sensitive) (p : Path) : Walk.From (c.walk p) (c.walk p) :=
  Walk.from_start (h.deps_case.trans h.files_case.symm) rfl

theorem Sensitive.withWalk (h : c.Sensitive) {p : Path} (hk : Walk.From (c.walk p) k) :
    (c.withWalk k).Sensitive :=
  ⟨hk.case.trans h.files_case, hk.deps_case.trans (hk.case.trans h.files_case), hk.kept h.kept⟩

theorem Closed.covered (h : c.Closed) (hs : c.Sensitive) (p : Path) :
    (c.walk p).Covered fun _ ↦ False where
  case := hs.deps_case.trans hs.files_case.symm
  stored := h.stored
  edges key hv e he := Or.inl (Or.inl (h.edges key hv e he))
  known key hk := Or.inl (Or.inl (h.known key hk))

theorem closed_of_covered (hk : k.Covered fun _ ↦ False) (hq : k.queue = []) :
    (c.withWalk k).Closed := by
  have hvalid {key : String} (h : k.Settled key ∨ False) : Analysis.isValid k.marks key = true :=
    (h.resolve_right id).valid hq
  exact ⟨hk.stored, fun key hv e he ↦ hvalid (hk.edges key hv e he),
    fun key hd ↦ hvalid (hk.known key hd)⟩

theorem isValid_of_steps {options : Json.Object} {p : Path}
    (hs : ReflTransGen (Walk.Step w options) (c.walk p) k) (hq : k.queue = []) :
    Analysis.isValid k.marks (c.files.key p) = true := by
  have hstart : (c.walk p).Settled (c.files.key p) :=
    Or.inr ⟨p.normalize, List.mem_singleton_self _, c.files.case.key_normalize p⟩
  exact (hstart.steps hs).valid hq

/-- A walk that is abandoned takes back all that it made valid or known. -/
theorem closed_of_abandoned {options : Json.Object} {p : Path} (h : c.Closed)
    (hw : TypesDeclared w options) (hk : Walk.From (c.walk p) k)
    (ha : Walk.Announces w options (c.walk p) k) : (c.withWalk k.abandon).Closed := by
  have hvalid {key : String} : Analysis.isValid k.abandon.marks key = true ↔
      Analysis.isValid c.marks key = true := hk.isValid_abandon key
  have hkeys (q : Path) : k.abandon.files.key q = c.files.key q := hk.key q
  refine ⟨fun key hv ↦ hk.stored key (h.stored key (hvalid.1 hv)), ?_, ?_⟩
  · intro key hv e he
    have hv : Analysis.isValid c.marks key = true := hvalid.1 hv
    have he : e ∈ k.abandon.deps.edgesAt key := he
    rw [Walk.abandon_edgesAt, hk.edges key hv] at he
    have ht := h.edges key hv e he
    rw [← hkeys] at ht
    exact hvalid.2 ht
  · intro key hkey
    apply hvalid.2
    by_contra hv
    have hknown := ((Walk.mem_declarations_abandon k key).1 hkey).1
    rcases ha.known key hknown with hc | ⟨e, hcited, hkind, rfl⟩
    · exact hv (h.known key hc)
    -- a declaration file that this walk has made known
    have hnew : k.deps.key e.target ∉ c.deps.declarations := fun hc ↦ hv (h.known _ hc)
    rw [hk.deps_key, hk.key, Bool.not_eq_true] at hv
    have hreleased := Walk.isKnown_abandon hk ha (Std.ExtTreeSet.contains_iff_mem.2 hknown) hnew hv
    rw [hcited.normalize_target, hcited.isDeclaration hw hkind, Dependencies.isKnown,
      Analysis.key_eq_key_of_case (Walk.abandon_case k)] at hreleased
    exact Bool.false_ne_true (hreleased.symm.trans (Std.ExtTreeSet.contains_iff_mem.2 hkey))

theorem Closed.check (h : c.Closed) (hs : c.Sensitive) (hw : TypesDeclared w c.options)
    (p : Path) :
    ((check w p).run c).state.Closed ∧ ((check w p).run c).state.Sensitive := by
  rcases state_check_cases w p c with ⟨k, hsteps, hq, hstate⟩ |
    ⟨k, file, queue, k', new, added, hsteps, hq, hv, ht, hcited, hstate⟩
  · rw [hstate]
    exact ⟨closed_of_covered ((h.covered hs p).steps hsteps) hq,
      hs.withWalk ((hs.from_walk p).steps hsteps)⟩
  · rw [hstate]
    have hfrom := ((hs.from_walk p).steps hsteps).touch hq hv ht
    have hstart : Walk.Announces w c.options (c.walk p) (c.walk p) :=
      Walk.announces_start w c.options (List.forall_mem_singleton.2 (Path.normalize_normalize p))
    have hann := (hstart.steps hsteps).touch hq ht hcited
    have hsens := hs.withWalk hfrom
    exact ⟨closed_of_abandoned h hw hfrom hann, hsens.files_case,
      (Walk.abandon_case k').trans hsens.deps_case, hsens.kept⟩

theorem Closed.check_ok (h : c.Closed) (hs : c.Sensitive) {p : Path} {analysed : Analysed}
    (hok : ((Compilation.check w p).run c).result = .ok analysed) :
    let c' := ((Compilation.check w p).run c).state
    c'.Closed ∧ c'.Sensitive ∧ Analysis.isValid c'.marks (c'.files.key p) = true := by
  obtain ⟨k, hsteps, hq, hstate⟩ := walk_of_check_ok hok
  have hfrom := (hs.from_walk p).steps hsteps
  have hv : Analysis.isValid k.marks (k.files.key p) = true :=
    (hfrom.key p).symm ▸ isValid_of_steps hsteps hq
  rw [hstate]
  exact ⟨closed_of_covered ((h.covered hs p).steps hsteps) hq, hs.withWalk hfrom, hv⟩

theorem Closed.store (h : c.Closed) {files : FileStore} (hcase : files.case = c.files.case)
    (hmono : ∀ key ∈ c.files.files, key ∈ files.files) :
    ({ c with files } : Compilation).Closed := by
  refine ⟨fun key hv ↦ hmono key (h.stored key hv), ?_, h.known⟩
  intro key hv e he
  rw [FileStore.key_eq_key_of_case hcase]
  exact h.edges key hv e he

end Checking

end Compilation

end TypedLoader
