import TypedLoader.Proofs.Checker.Findings
import TypedLoader.Proofs.Loader.Reporting

namespace TypedLoader

/-- An instance is told of a change, or its diagnostics are run. -/
inductive Check where
  | changed
  | run (found : Except LoadError (List Report))

namespace Check

/-- There was a change, and no run has succeeded since. -/
def Unchecked (log : List Check) : Prop :=
  ∃ before after, log = before ++ changed :: after ∧ ∀ reports, run (.ok reports) ∉ after

/-- The last run has failed, and there was no change since. -/
def Failed (log : List Check) : Prop := ∃ e, log.getLast? = some (run (.error e))

theorem getLast?_eq_changed (log : List Check) :
    log.getLast? = some changed ↔ Unchecked log ∧ ¬Failed log := by
  rcases List.eq_nil_or_concat log with rfl | ⟨front, last, rfl⟩
  · simp [Unchecked]
  rw [List.concat_eq_append, Failed, List.getLast?_concat]
  cases last with
  | changed =>
    refine iff_of_true rfl ⟨⟨front, [], rfl, fun _ ↦ List.not_mem_nil⟩, ?_⟩
    rintro ⟨e, he⟩
    cases he
  | run found =>
    refine iff_of_false (fun h ↦ by cases h) ?_
    rintro ⟨⟨before, after, hlog, hnone⟩, hfailed⟩
    cases found with
    | error e => exact hfailed ⟨e, rfl⟩
    | ok reports =>
      -- the run comes after the change, since it is the last
      rcases List.eq_nil_or_concat after with rfl | ⟨after, last, rfl⟩
      · obtain ⟨-, hlast⟩ := List.append_inj' hlog rfl
        cases hlast
      · rw [List.concat_eq_append, ← List.cons_append, ← List.append_assoc] at hlog
        obtain ⟨-, hlast⟩ := List.append_inj' hlog rfl
        obtain rfl := List.head_eq_of_cons_eq hlast
        refine hnone reports ?_
        simp

end Check

def Visit.checks (v : Visit) : List Check :=
  match v.found with
  | .ok none => []
  | .ok (some reports) => [.run (.ok reports)]
  | .error e => [.run (.error e)]

namespace Instance

variable {s : Surroundings} {i j : Instance} {log : List Check}

/-- The debouncer knows of a change when it is the last that has happened. -/
structure Tallied (log : List Check) (i : Instance) : Prop where
  idle : i.debouncer.inFlight = false
  owes : i.debouncer.changed.isSome ↔ log.getLast? = some .changed

theorem tallied_new {window : Nat} (h : i.debouncer = { window }) : i.Tallied [] where
  idle := by rw [h]
  owes := by simp [h]

theorem Tallied.of_eq (h : i.Tallied log) (hj : j.debouncer = i.debouncer) : j.Tallied log := by
  obtain ⟨hidle, howes⟩ := h
  rw [← hj] at hidle howes
  exact ⟨hidle, howes⟩

theorem Tallied.notify (h : i.Tallied log) {now : Nat}
    (hj : j.debouncer = i.debouncer.notify now) : j.Tallied (log ++ [.changed]) := by
  refine ⟨?_, ?_⟩
  · rw [hj]
    exact h.idle
  · rw [hj, List.getLast?_concat]
    exact iff_of_true rfl rfl

theorem Tallied.notify_if (h : i.Tallied log) {now : Nat} {ok : Bool}
    (hj : j.debouncer = if ok then i.debouncer.notify now else i.debouncer) :
    j.Tallied (log ++ if ok then [.changed] else []) := by
  cases ok with
  | true => exact h.notify hj
  | false =>
    rw [if_neg Bool.false_ne_true, List.append_nil]
    exact h.of_eq hj

theorem Tallied.held (h : i.Tallied log) (s : Surroundings) : (i.visit s).held.Tallied log :=
  h.of_eq (still_knownFiles s i).debouncer

/-- The visit of an instance that has been told of a change since its last run. -/
theorem Tallied.visit_of_owed (h : i.Tallied log) (s : Surroundings)
    (howed : log.getLast? = some .changed) :
    (i.visit s).found = ((diagnostics s).run (i.visit s).held).result.map some ∧
      (i.visit s).left.Tallied (log ++ (i.visit s).checks) := by
  obtain ⟨time, htime⟩ := Option.isSome_iff_exists.1 ((h.held s).owes.2 howed)
  obtain ⟨hfound, hleft⟩ := run_freshDiagnostics_of_changed s htime (h.held s).idle
  have hfound : (i.visit s).found = ((diagnostics s).run (i.visit s).held).result.map some := hfound
  have hleft : (i.visit s).left.debouncer =
      { (i.visit s).held.debouncer with changed := none } := hleft
  have hran : ∃ found, (i.visit s).checks = [.run found] := by
    rw [Visit.checks, hfound]
    cases ((diagnostics s).run (i.visit s).held).result with
    | error e => exact ⟨_, rfl⟩
    | ok reports => exact ⟨_, rfl⟩
  obtain ⟨found, hran⟩ := hran
  refine ⟨hfound, ?_, ?_⟩
  · rw [hleft]
    exact (h.held s).idle
  · rw [hleft, hran, List.getLast?_concat]
    exact iff_of_false (by simp) (by simp)

/-- The visit of an instance that has run its diagnostics since it was last told of a
change. -/
theorem Tallied.visit_of_not_owed (h : i.Tallied log) (s : Surroundings)
    (howed : log.getLast? ≠ some .changed) :
    (i.visit s).found = .ok none ∧ (i.visit s).left.Tallied (log ++ (i.visit s).checks) := by
  have hquiet : (i.visit s).held.debouncer.changed = none :=
    Option.not_isSome_iff_eq_none.1 fun hsome ↦ howed ((h.held s).owes.1 hsome)
  have hrun := run_freshDiagnostics_of_quiet s hquiet
  have hfound : (i.visit s).found = .ok none := congrArg Outcome.result hrun
  have hleft : (i.visit s).left = (i.visit s).held := congrArg Outcome.state hrun
  refine ⟨hfound, ?_⟩
  rw [hleft, Visit.checks, hfound, List.append_nil]
  exact h.held s

theorem Tallied.visit (h : i.Tallied log) (s : Surroundings) :
    (i.visit s).left.Tallied (log ++ (i.visit s).checks) := by
  by_cases howed : log.getLast? = some .changed
  · exact (h.visit_of_owed s howed).2
  · exact (h.visit_of_not_owed s howed).2

end Instance

namespace Loader

variable {s : Surroundings} {ctx ctx' : BuildContext} {name : String} {l l' : Loader}
  {i : Instance} {log log' : List Check}

inductive Tallies (l : Loader) (ctx : BuildContext) (name : String) : List Check → Prop
  | missing (away : l.instance? ctx name = none) : Tallies l ctx name []
  | there {i : Instance} {log : List Check} (found : l.instance? ctx name = some i)
    (tallied : i.Tallied log) : Tallies l ctx name log

theorem Tallies.of_eq (h : l.Tallies ctx name log)
    (he : l'.instance? ctx name = l.instance? ctx name) : l'.Tallies ctx name log := by
  cases h with
  | missing away => exact .missing (he.trans away)
  | there found tallied => exact .there (he.trans found) tallied

theorem Tallies.tallied (h : l.Tallies ctx name log) (hi : l.instance? ctx name = some i) :
    i.Tallied log := by
  cases h with
  | missing away => cases away.symm.trans hi
  | there found tallied => exact Option.some.inj (found.symm.trans hi) ▸ tallied

theorem Tallies.puts (h : l.Tallies ctx name log) (hp : Puts l ctx' i l')
    (hself : ctx.tree = ctx'.tree → name = i.name → i.Tallied log')
    (hother : ¬(ctx.tree = ctx'.tree ∧ name = i.name) → log' = log) :
    l'.Tallies ctx name log' := by
  by_cases hplace : ctx.tree = ctx'.tree ∧ name = i.name
  · obtain ⟨htree, rfl⟩ := id hplace
    exact .there ((instance?_of_tree htree l' i.name).trans hp.self) (hself htree rfl)
  · rw [hother hplace]
    exact h.of_eq (hp.others ctx name (not_and_or.1 hplace))

/-- A module is loaded, the instances of a tree are told of files that have changed, or a
pass comes to its end. -/
inductive Event where
  | load (x : Load)
  | watch (s : Surroundings) (ctx : BuildContext) (changed : List Path)
  | pass (s : Surroundings) (ctx : BuildContext) (report : PassReport)

/-- What the visits of a pass add to the log of an instance of its tree. -/
def visitChecks (name : String) (vs : List Visit) : List Check :=
  (vs.filter fun v ↦ v.name = name).flatMap Visit.checks

namespace Event

def run (l : Loader) : Event → Loader
  | .load x => (x.run l).state
  | .watch s ctx changed => ((beforePass s ctx changed).run l).state
  | .pass s ctx report => ((afterPass s ctx).run (l, report)).state.1

def checks (l : Loader) (ctx : BuildContext) (name : String) : Event → List Check
  | .load x => if x.Asks ctx name ∧ (x.run l).result.isOk then [.changed] else []
  | .watch _ ctx' changed =>
    if ctx.tree = ctx'.tree ∧ changed ≠ [] ∧ (l.instance? ctx name).isSome then [.changed] else []
  | .pass s ctx' _ =>
    if ctx.tree = ctx'.tree then visitChecks name (Instance.visits s (l.instances ctx')) else []

end Event

def follow (l : Loader) (events : List Event) : Loader := events.foldl Event.run l

def logOf (ctx : BuildContext) (name : String) : Loader → List Event → List Check
  | _, [] => []
  | l, e :: rest => e.checks l ctx name ++ logOf ctx name (e.run l) rest

theorem visitChecks_cons (name : String) (v : Visit) (vs : List Visit) :
    visitChecks name (v :: vs) =
      (if v.name = name then v.checks else []) ++ visitChecks name vs := by
  rw [visitChecks, List.filter_cons]
  split <;> simp_all [visitChecks]

theorem Tallies.visit (h : l.Tallies ctx name log) (s : Surroundings)
    (place : l.instance? ctx' i.name = some i) :
    ((l.put ctx' (i.visit s).held).put ctx' (i.visit s).left).Tallies ctx name
      (log ++ if ctx.tree = ctx'.tree ∧ i.name = name then (i.visit s).checks else []) := by
  obtain ⟨hname, hputs⟩ := puts_visit s l ctx' i
  refine h.puts hputs (fun htree he ↦ ?_) fun hother ↦ ?_
  · have hself : i.name = name := hname.symm.trans he.symm
    rw [if_pos ⟨htree, hself⟩]
    refine (h.tallied ?_).visit s
    rw [instance?_of_tree htree l, ← hself, place]
  · rw [if_neg fun hself ↦ hother ⟨hself.1, hself.2.symm.trans hname.symm⟩, List.append_nil]

theorem Reporting.tallies {is : List Instance} {p p' : Loader × PassReport} {vs : List Visit}
    {result : Except LoadError Unit} (h : Reporting s ctx' is p vs p' result) (hl : p.1.Named)
    (ht : p.1.Tallies ctx name log) : p'.1.Named ∧ p'.1.Tallies ctx name
      (log ++ if ctx.tree = ctx'.tree then visitChecks name vs else []) := by
  have hcons (i : Instance) (vs : List Visit) :
      (if ctx.tree = ctx'.tree then visitChecks name (i.visit s :: vs) else []) =
        (if ctx.tree = ctx'.tree ∧ i.name = name then (i.visit s).checks else []) ++
          if ctx.tree = ctx'.tree then visitChecks name vs else [] := by
    rw [visitChecks_cons, Instance.name_visit]
    by_cases htree : ctx.tree = ctx'.tree <;> simp [htree]
  induction h generalizing log with
  | done => exact ⟨hl, by simpa [visitChecks] using ht⟩
  | @unknown i _ l _ _ place =>
    have hputs := puts_put l ctx' (i.visit s).held
    refine ⟨hl.puts hputs, ?_⟩
    rw [visitChecks, List.filter_nil, List.flatMap_nil, ite_self, List.append_nil]
    refine ht.puts hputs (fun htree hname ↦ ?_) fun _ ↦ rfl
    exact (ht.tallied ((instance?_of_tree htree l name).trans
      (hname.trans (Instance.name_visit s i) ▸ place))).held s
  | @failed i _ _ _ _ _ place _ _ =>
    refine ⟨hl.puts (puts_visit s _ ctx' i).2, ?_⟩
    rw [hcons, ← List.append_assoc]
    simpa [visitChecks] using ht.visit s place
  | @visited i _ _ _ _ _ _ _ _ place _ _ _ ih =>
    rw [hcons, ← List.append_assoc]
    exact ih (hl.puts (puts_visit s _ ctx' i).2) (ht.visit s place)

theorem Tallies.load (x : Load) (hl : l.Named) (h : l.Tallies ctx name log) :
    (x.run l).state.Named ∧ (x.run l).state.Tallies ctx name
      (log ++ Event.checks l ctx name (.load x)) := by
  rcases x.run_cases hl with ⟨hfailed, hsame⟩ |
    ⟨i, j, l₁, hasks, hplace, hputs, hsetup, hdebouncer, hstate⟩
  · refine ⟨fun ctx name i hi ↦ hl ctx name i (hsame ctx name ▸ hi), ?_⟩
    rw [Event.checks, hfailed, if_neg fun hok ↦ Bool.false_ne_true hok.2, List.append_nil]
    exact h.of_eq (hsame ctx name)
  · have hname : j.name = i.name := congrArg LoaderConfig.instanceName hsetup
    refine ⟨fun ctx name k hk ↦ hl.puts hputs ctx name k (hstate ctx name ▸ hk), ?_⟩
    refine Tallies.of_eq (h.puts hputs (fun htree he ↦ ?_) fun hother ↦ ?_) (hstate ctx name)
    · obtain rfl : name = i.name := he.trans hname
      have hasks : x.Asks ctx i.name := ⟨hasks.1.trans htree.symm, hasks.2⟩
      have hi : i.Tallied log := by
        rw [← instance?_of_tree htree l] at hplace
        rcases hplace with hfound | ⟨hnone, window, hnew⟩
        · exact h.tallied hfound
        · cases h with
          | missing => exact Instance.tallied_new hnew
          | there found => cases hnone.symm.trans found
      simp only [Event.checks, hasks, true_and]
      exact hi.notify_if hdebouncer
    · rw [Event.checks, if_neg, List.append_nil]
      rintro ⟨hasked, -⟩
      refine hother ⟨hasked.1.symm.trans hasks.1, ?_⟩
      exact (Option.some.inj (hasked.2.symm.trans hasks.2)).trans hname.symm

theorem Tallies.watch (s : Surroundings) (changed : List Path) (hl : l.Named)
    (h : l.Tallies ctx name log) : (Event.run l (.watch s ctx' changed)).Named ∧
      (Event.run l (.watch s ctx' changed)).Tallies ctx name
        (log ++ Event.checks l ctx name (.watch s ctx' changed)) := by
  refine ⟨hl.refreshed ⟨s, ctx', changed, []⟩, ?_⟩
  have hplace : (Event.run l (.watch s ctx' changed)).instance? ctx name = _ :=
    instance?_beforePass hl s changed ctx name
  rw [Event.checks]
  cases h with
  | missing away =>
    rw [away, Option.map_none, ite_self] at hplace
    rw [away, if_neg fun htold ↦ Bool.false_ne_true htold.2.2]
    exact .missing hplace
  | @there i _ found tallied =>
    rw [found] at hplace ⊢
    by_cases htold : ctx.tree = ctx'.tree ∧ changed ≠ []
    · rw [if_pos htold, Option.map_some] at hplace
      rw [if_pos ⟨htold.1, htold.2, rfl⟩]
      exact .there hplace (tallied.notify (Instance.debouncer_filesChanged s changed i))
    · rw [if_neg htold] at hplace
      rw [if_neg fun hall ↦ htold ⟨hall.1, hall.2.1⟩, List.append_nil]
      exact .there hplace tallied

theorem Tallies.event (e : Event) (hl : l.Named) (h : l.Tallies ctx name log) :
    (e.run l).Named ∧ (e.run l).Tallies ctx name (log ++ e.checks l ctx name) := by
  cases e with
  | load x => exact h.load x hl
  | watch s ctx' changed => exact h.watch s changed hl
  | pass s ctx' report =>
    obtain ⟨_, hreporting, -, -⟩ := reporting_afterPass s ctx' report hl
    exact hreporting.tallies hl h

theorem Tallies.follow {events : List Event} (hl : l.Named) (h : l.Tallies ctx name log) :
    (l.follow events).Named ∧
      (l.follow events).Tallies ctx name (log ++ logOf ctx name l events) := by
  induction events generalizing l log with
  | nil =>
    rw [logOf, List.append_nil]
    exact ⟨hl, h⟩
  | cons e rest ih =>
    obtain ⟨hnamed, hnext⟩ := h.event e hl
    rw [logOf, ← List.append_assoc]
    exact ih hnamed hnext

end Loader

theorem Compilation.program_of_reports {w : World} {f : DiagnosticFilter} {context : Path}
    {c : Compilation} {found : List Report} (h : ((reports w f context).run c).result = .ok found) :
    ∃ latest, ((program w).run c).result = .ok latest ∧
      (latest.diagnostics f).mapM (c.report? w.coloured context) = some found := by
  cases hprogram : ((program w).run c).result with
  | error e =>
    rw [run_reports_of_error hprogram] at h
    cases h
  | ok latest =>
    rw [run_reports_of_ok f context hprogram] at h
    refine ⟨latest, rfl, ?_⟩
    generalize (latest.diagnostics f).mapM (c.report? w.coloured context) = reported at h
    cases reported with
    | none => cases h
    | some reports => exact congrArg some (Except.ok.inj h)

namespace Loader

/-- The diagnostics of an instance are run when there was a change and no run has succeeded
since, unless the last run has failed after the change: then the pass leaves the change
unchecked, without an error. -/
theorem checks_follow_changes (d : Disk) (events : List Event) (s : Surroundings)
    (ctx : BuildContext) (report : PassReport) :
    let l := follow { disk := d } events
    let o := (afterPass s ctx).run (l, report)
    let vs := Instance.visits s (l.instances ctx)
    (∀ v ∈ vs,
      let log := logOf ctx v.name { disk := d } events
      (Check.Unchecked log ∧ ¬Check.Failed log →
        v.found = ((Instance.diagnostics s).run v.held).result.map some) ∧
      (¬(Check.Unchecked log ∧ ¬Check.Failed log) → v.found = .ok none) ∧
      (∀ e, v.found = .error e → o.result = .error e) ∧
      ∀ reports, v.found = .ok (some reports) → v.held.checker = none → ∃ latest,
        ((Compilation.program s.world).run v.held.compilation).result = .ok latest ∧
        (latest.diagnostics v.held.filter).mapM
          (v.held.compilation.report? s.world.coloured v.held.context) = some reports) ∧
    (∀ d, o.state.2.Lists d ↔ report.Lists d ∨ ∃ v ∈ vs, d ∈ v.reports) ∧
    (o.result = .ok () → vs.map Visit.name = (l.instances ctx).map Instance.name) := by
  intro l o vs
  have hempty : ({ disk := d } : Loader).Named := fun ctx name i hi ↦ by
    rw [instance?_empty] at hi
    cases hi
  have hl (name : String) : l.Named ∧ l.Tallies ctx name (logOf ctx name { disk := d } events) :=
    (Tallies.missing (instance?_empty d ctx name)).follow hempty
  have hnamed : l.Named := (hl "").1
  obtain ⟨result, hreporting, herror, hok⟩ := reporting_afterPass s ctx report hnamed
  refine ⟨fun v hv ↦ ?_, hreporting.lists, fun hdone ↦ hreporting.names (hok hdone)⟩
  intro log
  obtain ⟨i, hi, rfl⟩ := Instance.mem_visits hv
  have htallied : i.Tallied log := by
    obtain ⟨name, hfound⟩ := mem_instances.1 hi
    obtain rfl := hnamed ctx name i hfound
    rw [← Instance.name_visit s i] at hfound
    exact (hl _).2.tallied hfound
  rw [← Check.getLast?_eq_changed]
  refine ⟨fun howed ↦ (htallied.visit_of_owed s howed).1,
    fun howed ↦ (htallied.visit_of_not_owed s howed).1,
    fun e he ↦ herror e (hreporting.result_of_error hv he), fun reports hfound alone ↦ ?_⟩
  have howed : log.getLast? = some .changed := not_not.1 fun hnot ↦ by
    cases (htallied.visit_of_not_owed s hnot).1.symm.trans hfound
  have hran := (htallied.visit_of_owed s howed).1.symm.trans hfound
  rw [Instance.run_diagnostics, Instance.run_perform_here alone] at hran
  obtain ⟨reports', hreports, he⟩ := map_eq_ok hran
  obtain rfl := Option.some.inj he
  exact Compilation.program_of_reports (Action.run_mapError_ok hreports).1

end Loader

end TypedLoader
