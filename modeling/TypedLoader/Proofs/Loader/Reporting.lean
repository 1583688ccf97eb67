import TypedLoader.Proofs.Loader.Checking

namespace TypedLoader

/-- A pass looks after an instance: the instance once its files are known, the answer to
the question for fresh diagnostics, and the instance after it. -/
structure Visit where
  held : Instance
  found : Except LoadError (Option (List Report))
  left : Instance

def Visit.name (v : Visit) : String := v.held.name

def Visit.reports (v : Visit) : List Report :=
  match v.found with
  | .ok (some reports) => reports
  | _ => []

def PassReport.Lists (r : PassReport) (d : Report) : Prop := d ∈ r.errors ∨ d ∈ r.warnings

namespace Instance

def visit (s : Surroundings) (i : Instance) : Visit :=
  let held := ((knownFiles s).run i).state
  let fresh := (freshDiagnostics s).run held
  ⟨held, fresh.result, fresh.state⟩

theorem name_visit (s : Surroundings) (i : Instance) : (i.visit s).name = i.name :=
  (still_knownFiles s i).name

def visits (s : Surroundings) : List Instance → List Visit
  | [] => []
  | i :: rest =>
    match ((knownFiles s).run i).result with
    | .error _ => []
    | .ok _ =>
      match (i.visit s).found with
      | .error _ => [i.visit s]
      | .ok _ => i.visit s :: visits s rest

theorem mem_visits {s : Surroundings} {v : Visit} {is : List Instance} (h : v ∈ visits s is) :
    ∃ i ∈ is, v = i.visit s := by
  induction is with
  | nil => exact absurd h List.not_mem_nil
  | cons i rest ih =>
    rw [visits] at h
    split at h
    · exact absurd h List.not_mem_nil
    · split at h
      · exact ⟨i, List.mem_cons_self, List.mem_singleton.1 h⟩
      · rcases List.mem_cons.1 h with rfl | h
        · exact ⟨i, List.mem_cons_self, rfl⟩
        · exact (ih h).imp fun _ hj ↦ ⟨List.mem_cons_of_mem i hj.1, hj.2⟩

end Instance

namespace PassReport

theorem lists_watch (files : List Path) (r : PassReport) (d : Report) :
    (r.watch files).Lists d ↔ r.Lists d := by
  rw [watch]
  induction files generalizing r with
  | nil => rfl
  | cons file rest ih =>
    rw [List.foldl_cons, ih]
    dsimp only
    split <;> rfl

theorem lists_addRun (i : Instance) (time : Nat) (reports : List Report) (r : PassReport)
    (d : Report) : (r.addRun i time reports).Lists d ↔ r.Lists d ∨ d ∈ reports := by
  simp only [Lists, addRun, List.mem_append, List.mem_filter, Bool.not_eq_true']
  cases d.isError && !i.config.errorsAsWarnings <;> simp [or_assoc, or_comm, or_left_comm]

/-- The report once an instance is looked after: its files are watched, and what a run has
found is added. -/
def taking (i : Instance) (time : Nat) (files : List Path) (found : Option (List Report))
    (r : PassReport) : PassReport :=
  match found with
  | none => r.watch files
  | some reports => (r.watch files).addRun i time reports

theorem lists_taking (i : Instance) (time : Nat) (files : List Path)
    (found : Option (List Report)) (r : PassReport) (d : Report) :
    (r.taking i time files found).Lists d ↔ r.Lists d ∨ d ∈ found.getD [] := by
  cases found with
  | none => simp [taking, lists_watch]
  | some reports => simp [taking, lists_addRun, lists_watch]

end PassReport

namespace Loader

variable {s : Surroundings} {ctx : BuildContext} {l : Loader} {i : Instance} {is : List Instance}
  {r : PassReport}

inductive Reporting (s : Surroundings) (ctx : BuildContext) : List Instance →
    Loader × PassReport → List Visit → Loader × PassReport → Except LoadError Unit → Prop
  | done {p : Loader × PassReport} : Reporting s ctx [] p [] p (.ok ())
  | unknown {i : Instance} {rest : List Instance} {l : Loader} {r : PassReport} {e : LoadError}
    (place : l.instance? ctx i.name = some i) :
    Reporting s ctx (i :: rest) (l, r) [] (l.put ctx (i.visit s).held, r) (.error e)
  | failed {i : Instance} {rest : List Instance} {l : Loader} {r r' : PassReport} {e : LoadError}
    (place : l.instance? ctx i.name = some i) (found : (i.visit s).found = .error e)
    (listed : ∀ d, r'.Lists d ↔ r.Lists d) : Reporting s ctx (i :: rest) (l, r) [i.visit s]
      ((l.put ctx (i.visit s).held).put ctx (i.visit s).left, r') (.error e)
  | visited {i : Instance} {rest : List Instance} {l : Loader} {r r' : PassReport}
    {found : Option (List Report)} {vs : List Visit} {p : Loader × PassReport}
    {result : Except LoadError Unit}
    (place : l.instance? ctx i.name = some i) (found : (i.visit s).found = .ok found)
    (listed : ∀ d, r'.Lists d ↔ r.Lists d ∨ d ∈ (i.visit s).reports)
    (next : Reporting s ctx rest
      ((l.put ctx (i.visit s).held).put ctx (i.visit s).left, r') vs p result) :
    Reporting s ctx (i :: rest) (l, r) (i.visit s :: vs) p result

theorem puts_visit (s : Surroundings) (l : Loader) (ctx : BuildContext) (i : Instance) :
    (i.visit s).left.name = i.name ∧ Puts l ctx (i.visit s).left
      ((l.put ctx (i.visit s).held).put ctx (i.visit s).left) := by
  have hheld : (i.visit s).held.name = i.name := Instance.name_visit s i
  have hleft : (i.visit s).left.name = (i.visit s).held.name :=
    congrArg LoaderConfig.instanceName (Instance.config_freshDiagnostics s (i.visit s).held)
  exact ⟨hleft.trans hheld, (puts_put l ctx _).trans (puts_put _ ctx _) hleft⟩

theorem instance?_visited (s : Surroundings) {rest : List Instance}
    (hnew : i.name ∉ rest.map Instance.name)
    (hrest : ∀ j ∈ rest, l.instance? ctx j.name = some j) :
    ∀ j ∈ rest, ((l.put ctx (i.visit s).held).put ctx (i.visit s).left).instance? ctx j.name =
      some j := by
  intro j hj
  obtain ⟨hname, hputs⟩ := puts_visit s l ctx i
  have hne : j.name ≠ (i.visit s).left.name :=
    fun he ↦ hnew (List.mem_map.2 ⟨j, hj, he.trans hname⟩)
  rw [hputs.others ctx j.name (Or.inr hne)]
  exact hrest j hj

theorem run_onLoader {α : Type} (a : Act α) (l : Loader) (r : PassReport) :
    (onLoader a).run (l, r) = ⟨(a.run l).result, ((a.run l).state, r), (a.run l).calls⟩ := rfl

theorem run_reportInstance (r : PassReport) (place : l.instance? ctx i.name = some i) :
    let v := i.visit s
    let l' := (l.put ctx v.held).put ctx v.left
    match ((Instance.knownFiles s).run i).result, v.found with
    | .error e, _ => ∃ calls,
      (reportInstance s ctx i).run (l, r) = ⟨.error e, (l.put ctx v.held, r), calls⟩
    | .ok files, .error e => ∃ calls,
      (reportInstance s ctx i).run (l, r) = ⟨.error e, (l', r.watch files), calls⟩
    | .ok files, .ok found => ∃ calls,
      (reportInstance s ctx i).run (l, r) = ⟨.ok (found.bind i.bailReason?),
        (l', r.taking i (i.startTime s - s.now) files found), calls⟩ := by
  intro v l'
  have hknown : (within ctx i (Instance.knownFiles s)).run l =
      ⟨((Instance.knownFiles s).run i).result, l.put ctx v.held,
        ((Instance.knownFiles s).run i).calls⟩ := run_within place _
  have hname : v.held.name = i.name := Instance.name_visit s i
  have hfresh : (within ctx i (Instance.freshDiagnostics s)).run (l.put ctx v.held) =
      ⟨v.found, l', ((Instance.freshDiagnostics s).run v.held).calls⟩ :=
    run_within (hname ▸ (puts_put l ctx v.held).self) _
  rw [reportInstance, Action.run_bind, run_onLoader, hknown]
  cases ((Instance.knownFiles s).run i).result with
  | error e => exact ⟨_, rfl⟩
  | ok files =>
    have hnext (f : Option (List Report) → PassAct (Option String)) :
        (onReport (·.watch files) >>= fun _ ↦
          onLoader (within ctx i (Instance.freshDiagnostics s)) >>= f).run (l.put ctx v.held, r) =
        ((onLoader (within ctx i (Instance.freshDiagnostics s)) >>= f).run
          (l.put ctx v.held, r.watch files)).after [] := rfl
    dsimp only
    rw [hnext, Action.run_bind, run_onLoader, hfresh]
    cases v.found with
    | error e => exact ⟨_, rfl⟩
    | ok found =>
      cases found with
      | none => exact ⟨_, rfl⟩
      | some reports => exact ⟨_, rfl⟩

/-- A pass visits its instances in order, until a visit fails. -/
theorem reporting_visits (r : PassReport) (hnodup : (is.map Instance.name).Nodup)
    (hplace : ∀ i ∈ is, l.instance? ctx i.name = some i) :
    let o := (reportInstances s ctx is).run (l, r)
    Reporting s ctx is (l, r) (Instance.visits s is) o.state (o.result.map fun _ ↦ ()) := by
  induction is generalizing l r with
  | nil => exact .done
  | cons i rest ih =>
    obtain ⟨hnew, hnodup⟩ := List.nodup_cons.1 hnodup
    obtain ⟨hi, hrest⟩ := List.forall_mem_cons.1 hplace
    have hrun := run_reportInstance (s := s) r hi
    dsimp only at hrun
    rw [reportInstances, Instance.visits]
    cases hknown : ((Instance.knownFiles s).run i).result with
    | error e =>
      rw [hknown] at hrun
      obtain ⟨calls, hrun⟩ := hrun
      rw [Action.run_bind, hrun]
      exact .unknown hi
    | ok files =>
      rw [hknown] at hrun
      cases hfound : (i.visit s).found with
      | error e =>
        rw [hfound] at hrun
        obtain ⟨calls, hrun⟩ := hrun
        rw [Action.run_bind, hrun]
        exact .failed hi hfound fun d ↦ r.lists_watch files d
      | ok found =>
        rw [hfound] at hrun
        obtain ⟨calls, hrun⟩ := hrun
        have hlists (d : Report) : (r.taking i (i.startTime s - s.now) files found).Lists d ↔
            r.Lists d ∨ d ∈ (i.visit s).reports := by
          rw [PassReport.lists_taking, Visit.reports, hfound]
          cases found <;> rfl
        generalize found.bind i.bailReason? = reason at hrun
        generalize r.taking i (i.startTime s - s.now) files found = r' at hrun hlists
        have hothers := instance?_visited s hnew hrest
        have hnext := ih r' hnodup hothers
        rw [Action.run_bind, hrun]
        dsimp only
        refine .visited hi hfound hlists ?_
        obtain ⟨hresult, hstate⟩ := Action.run_bind_pure (reportInstances s ctx rest)
          (fun later ↦ reason.or later) ((l.put ctx (i.visit s).held).put ctx (i.visit s).left, r')
        have hmap (result : Except LoadError (Option String)) :
            (result.map fun later ↦ reason.or later).map (fun _ ↦ ()) = result.map fun _ ↦ () := by
          cases result <;> rfl
        simp only [Outcome.after, hresult, hstate, hmap]
        exact hnext

section Leaving

variable {p p' : Loader × PassReport} {vs : List Visit} {result : Except LoadError Unit}

theorem Reporting.lists (h : Reporting s ctx is p vs p' result) (d : Report) :
    p'.2.Lists d ↔ p.2.Lists d ∨ ∃ v ∈ vs, d ∈ v.reports := by
  induction h with
  | done => simp
  | unknown => simp
  | failed _ found listed => simp [listed, Visit.reports, found]
  | visited _ _ listed _ ih => simp [ih, listed, or_assoc]

theorem Reporting.result_of_error (h : Reporting s ctx is p vs p' result) {v : Visit}
    (hv : v ∈ vs) {e : LoadError} (he : v.found = .error e) : result = .error e := by
  induction h with
  | done => cases hv
  | unknown => cases hv
  | failed _ found _ =>
    obtain rfl := List.mem_singleton.1 hv
    exact congrArg Except.error (Except.error.inj (found.symm.trans he))
  | visited _ found _ _ ih =>
    rcases List.mem_cons.1 hv with rfl | hv
    · cases found.symm.trans he
    · exact ih hv

theorem Reporting.names (h : Reporting s ctx is p vs p' result) (hok : result = .ok ()) :
    vs.map Visit.name = is.map Instance.name := by
  induction h with
  | done => rfl
  | unknown => cases hok
  | failed => cases hok
  | visited _ _ _ _ ih => rw [List.map_cons, List.map_cons, ih hok, Instance.name_visit]

end Leaving

theorem run_afterPass (s : Surroundings) (ctx : BuildContext) (l : Loader) (r : PassReport) :
    let o := (reportInstances s ctx (l.instances ctx)).run (l, r)
    ((afterPass s ctx).run (l, r)).state = o.state ∧
      (∀ e, o.result = .error e → ((afterPass s ctx).run (l, r)).result = .error e) ∧
      (((afterPass s ctx).run (l, r)).result = .ok () → ∃ reason, o.result = .ok reason) := by
  intro o
  have hread : (onLoader Action.get).run (l, r) = ⟨.ok l, (l, r), []⟩ := rfl
  rw [afterPass, Action.run_bind_of_still hread]
  cases hresult : o.result with
  | error e =>
    rw [Action.run_bind_of_error hresult]
    refine ⟨rfl, fun _ he ↦ congrArg Except.error (Except.error.inj he), fun hok ↦ ?_⟩
    cases hok
  | ok reason =>
    rw [Action.run_bind_of_ok hresult]
    refine ⟨?_, fun _ he ↦ (by cases he), fun _ ↦ ⟨reason, rfl⟩⟩
    cases reason <;> rfl

theorem reporting_afterPass (s : Surroundings) (ctx : BuildContext) (r : PassReport)
    (hl : l.Named) : ∃ result, Reporting s ctx (l.instances ctx) (l, r)
      (Instance.visits s (l.instances ctx)) ((afterPass s ctx).run (l, r)).state result ∧
      (∀ e, result = .error e → ((afterPass s ctx).run (l, r)).result = .error e) ∧
      (((afterPass s ctx).run (l, r)).result = .ok () → result = .ok ()) := by
  obtain ⟨hstate, herror, hok⟩ := run_afterPass s ctx l r
  have hplace : ∀ i ∈ l.instances ctx, l.instance? ctx i.name = some i := by
    intro i hi
    obtain ⟨name, hfound⟩ := mem_instances.1 hi
    rw [hl ctx name i hfound]
    exact hfound
  have h := reporting_visits (s := s) r (nodup_instances hl ctx) hplace
  rw [hstate]
  refine ⟨_, h, fun e he ↦ herror e ?_, fun hdone ↦ ?_⟩
  · cases hresult : ((reportInstances s ctx (l.instances ctx)).run (l, r)).result with
    | error e' =>
      rw [hresult] at he
      exact congrArg Except.error (Except.error.inj he)
    | ok reason =>
      rw [hresult] at he
      cases he
  · obtain ⟨reason, hreason⟩ := hok hdone
    rw [hreason]
    rfl

end Loader

end TypedLoader
