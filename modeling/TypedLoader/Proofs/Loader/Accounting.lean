import TypedLoader.Proofs.Checker.Findings
import TypedLoader.Proofs.Loader.Reporting
import TypedLoader.Proofs.Loader.Sharing

namespace TypedLoader

namespace PassReport

def Covers (r : PassReport) (p : Path) : Prop :=
  p.normalize ∈ (r.modules ++ r.dependencies).map Path.normalize

/-- Known files join the files to watch one by one, in normal form, each of them only if it
is not covered. -/
inductive Joins (known : Path → Prop) (modules : List Path) : List Path → List Path → Prop
  | done {watched : List Path} : Joins known modules watched watched
  | next {watched watched' : List Path} {p : Path} (hknown : known p)
    (hnew : p.normalize ∉ (modules ++ watched).map Path.normalize)
    (h : Joins known modules (watched ++ [p.normalize]) watched') :
    Joins known modules watched watched'

section Joins

variable {known known' : Path → Prop} {modules w₁ w₂ w₃ : List Path}

theorem Joins.trans (h : Joins known modules w₁ w₂) (h' : Joins known modules w₂ w₃) :
    Joins known modules w₁ w₃ := by
  induction h with
  | done => exact h'
  | next hknown hnew _ ih => exact .next hknown hnew (ih h')

theorem Joins.mono (h : Joins known modules w₁ w₂) (hk : ∀ p, known p → known' p) :
    Joins known' modules w₁ w₂ := by
  induction h with
  | done => exact .done
  | next hknown hnew _ ih => exact .next (hk _ hknown) hnew ih

theorem Joins.added (h : Joins known modules w₁ w₂) : ∃ added, w₂ = w₁ ++ added ∧
    ∀ before f after, added = before ++ f :: after → (∃ q, known q ∧ f = q.normalize) ∧
      f ∉ (modules ++ (w₁ ++ before)).map Path.normalize := by
  induction h with
  | done => exact ⟨[], (List.append_nil _).symm, by simp⟩
  | @next watched watched' p hknown hnew _ ih =>
    obtain ⟨added, rfl, hadded⟩ := ih
    refine ⟨p.normalize :: added, List.append_assoc .., fun before f after hsplit ↦ ?_⟩
    cases before with
    | nil =>
      obtain ⟨rfl, -⟩ := List.cons.inj hsplit
      rw [List.append_nil]
      exact ⟨⟨p, hknown, rfl⟩, hnew⟩
    | cons f' before =>
      obtain ⟨rfl, hrest⟩ := List.cons.inj hsplit
      obtain ⟨hf, hfresh⟩ := hadded before f after hrest
      rw [List.append_assoc] at hfresh
      exact ⟨hf, hfresh⟩

theorem Joins.mem_of_mem (h : Joins known modules w₁ w₂) {p : Path}
    (hp : p ∈ (modules ++ w₁).map Path.normalize) : p ∈ (modules ++ w₂).map Path.normalize := by
  obtain ⟨added, rfl, -⟩ := h.added
  rw [← List.append_assoc, List.map_append]
  exact List.mem_append_left _ hp

theorem Joins.eq_of_covered (h : Joins known modules w₁ w₂)
    (hc : ∀ p, known p → p.normalize ∈ (modules ++ w₁).map Path.normalize) : w₂ = w₁ := by
  cases h with
  | done => rfl
  | next hknown hnew _ => exact absurd (hc _ hknown) hnew

end Joins

theorem watch_cons (r : PassReport) (file : Path) (files : List Path) :
    (r.Covers file ∧ r.watch (file :: files) = r.watch files) ∨
    (¬r.Covers file ∧ r.watch (file :: files) =
      { r with dependencies := r.dependencies ++ [file.normalize] }.watch files) := by
  have hcovers : ((r.modules.map Path.normalize).contains file.normalize ||
      (r.dependencies.map Path.normalize).contains file.normalize) = true ↔ r.Covers file := by
    simp [Covers]
  rw [watch, List.foldl_cons]
  by_cases h : r.Covers file
  · exact Or.inl ⟨h, by rw [if_pos (hcovers.2 h), ← watch]⟩
  · exact Or.inr ⟨h, by rw [if_neg (mt hcovers.1 h), ← watch]⟩

theorem watch_spec (files : List Path) (r : PassReport) : ∃ watched,
    r.watch files = { r with dependencies := watched } ∧
      Joins (· ∈ files) r.modules r.dependencies watched ∧
      ∀ q ∈ files, q.normalize ∈ (r.modules ++ watched).map Path.normalize := by
  induction files generalizing r with
  | nil => exact ⟨r.dependencies, rfl, .done, by simp⟩
  | cons file rest ih =>
    rcases r.watch_cons file rest with ⟨hcovers, hwatch⟩ | ⟨hnew, hwatch⟩
    · obtain ⟨watched, hrest, hjoins, hall⟩ := ih r
      refine ⟨watched, hwatch.trans hrest, hjoins.mono fun q hq ↦ List.mem_cons_of_mem _ hq, ?_⟩
      exact List.forall_mem_cons.2 ⟨hjoins.mem_of_mem hcovers, hall⟩
    · obtain ⟨watched, hrest, hjoins, hall⟩ :=
        ih { r with dependencies := r.dependencies ++ [file.normalize] }
      refine ⟨watched, hwatch.trans hrest, .next List.mem_cons_self hnew
        (hjoins.mono fun q hq ↦ List.mem_cons_of_mem _ hq), List.forall_mem_cons.2 ⟨?_, hall⟩⟩
      refine hjoins.mem_of_mem ?_
      rw [← List.append_assoc, List.map_append, List.map_singleton, Path.normalize_normalize]
      exact List.mem_append_right _ (List.mem_singleton_self _)

end PassReport

namespace Instance

variable {s : Surroundings} {i : Instance}

theorem knownFiles_here (s : Surroundings) (h : i.checker = none) :
    (knownFiles s).run i = ⟨.ok i.compilation.files.paths, i, []⟩ := run_perform_here h

theorem diagnostics_here (s : Surroundings) (h : i.checker = none) :
    let o := (Compilation.reports s.world i.filter i.context).run i.compilation
    (diagnostics s).run i =
      ⟨o.result.mapError .checker, { i with compilation := o.state }, o.calls⟩ := by
  intro o
  rw [diagnostics, Action.run_get_bind, run_perform_here h, Action.run_mapError]

theorem visit_here (s : Surroundings) (h : i.checker = none) :
    (i.visit s).left.checker = none ∧
      (i.visit s).left.compilation.files = i.compilation.files ∧
      ∀ e, (i.visit s).found = .error e → ∃ cause, e = .checker cause := by
  obtain ⟨started, debouncer, hstart⟩ : ∃ started debouncer,
      (tryStart s).run i = ⟨.ok started, { i with debouncer }, []⟩ := ⟨_, _, rfl⟩
  let j : Instance := { i with debouncer }
  have hj : j.checker = none := h
  let o := (Compilation.reports s.world i.filter i.context).run i.compilation
  have hfiles : o.state.files = i.compilation.files :=
    Compilation.keeps_reports s.world (P := fun c ↦ c.files = i.compilation.files)
      (fun _ _ h ↦ h) i.filter i.context i.compilation rfl
  have hrun : (diagnostics s).run j =
      ⟨o.result.mapError .checker, { j with compilation := o.state }, o.calls⟩ :=
    diagnostics_here s hj
  rw [visit, knownFiles_here s h, freshDiagnostics, Action.run_bind, hstart]
  cases started with
  | false => exact ⟨h, rfl, fun e he ↦ by cases he⟩
  | true =>
    dsimp only
    rw [if_pos rfl, Action.run_bind, Action.run_attempt, hrun]
    cases o.result with
    | ok reports => exact ⟨h, hfiles, fun e he ↦ by cases he⟩
    | error cause => exact ⟨h, hfiles, fun e he ↦ ⟨cause, (Except.error.inj he).symm⟩⟩

theorem found_visit_here (s : Surroundings) (h : i.checker = none) : (i.visit s).found =
    if i.debouncer.changed.isSome = true ∧ i.debouncer.inFlight = false then
      ((diagnostics s).run i).result.map some
    else .ok none := by
  have hvisit : (i.visit s).found = ((freshDiagnostics s).run i).result := by
    rw [visit, knownFiles_here s h]
  rw [hvisit]
  cases hchanged : i.debouncer.changed with
  | none =>
    rw [run_freshDiagnostics_of_quiet s hchanged]
    rfl
  | some time =>
    cases hbusy : i.debouncer.inFlight with
    | false =>
      rw [if_pos ⟨rfl, rfl⟩]
      exact (run_freshDiagnostics_of_changed s hchanged hbusy).1
    | true =>
      have hstart : (tryStart s).run i = ⟨.ok false, i, []⟩ := by
        rw [tryStart, Action.run_update, Debouncer.tryStart, Debouncer.deadline, hchanged, hbusy]
        rfl
      rw [freshDiagnostics, Action.run_bind_of_still hstart, if_neg (by simp)]
      rfl

def counts (i : Instance) (d : Report) : Bool := d.isError && !i.config.errorsAsWarnings

def Stops (s : Surroundings) (i : Instance) : Prop :=
  i.config.bail = true ∧ i.config.errorsAsWarnings = false ∧
    ∃ d ∈ (i.visit s).reports, d.isError = true

theorem bailReason?_of_stops (h : i.Stops s) : i.bailReason? (i.visit s).reports =
    some (toString (PassReport.countErrors (i.visit s).reports) ++
      " type errors in instance '" ++ i.name ++ "'") := by
  obtain ⟨hbail, hcounted, d, hd, herror⟩ := h
  have hpos : 0 < PassReport.countErrors (i.visit s).reports :=
    List.length_pos_of_mem (List.mem_filter.2 ⟨hd, herror⟩)
  rw [bailReason?, hbail, hcounted]
  exact if_pos (by simpa using hpos)

theorem bailReason?_of_not_stops (h : ¬i.Stops s) : i.bailReason? (i.visit s).reports = none := by
  refine if_neg fun hbail ↦ h ?_
  simp only [Bool.and_eq_true, Bool.not_eq_true', decide_eq_true_eq] at hbail
  obtain ⟨⟨hbail, hcounted⟩, hpos⟩ := hbail
  obtain ⟨d, hd⟩ := List.exists_mem_of_length_pos hpos
  obtain ⟨hd, herror⟩ := List.mem_filter.1 hd
  exact ⟨hbail, hcounted, d, hd, herror⟩

theorem isSome_bailReason? : (i.bailReason? (i.visit s).reports).isSome = true ↔ i.Stops s := by
  by_cases h : i.Stops s
  · rw [bailReason?_of_stops h]
    exact iff_of_true rfl h
  · rw [bailReason?_of_not_stops h]
    exact iff_of_false Bool.false_ne_true h

end Instance

/-- What a pass over instances adds to a report in which it does not fail. -/
structure Accounts (s : Surroundings) (is : List Instance) (r r' : PassReport) : Prop where
  covered : ∀ i ∈ is, ∀ q ∈ i.compilation.files.paths, r'.Covers q
  errors : r'.errors = r.errors ++ is.flatMap fun i ↦ (i.visit s).reports.filter i.counts
  warnings : r'.warnings =
    r.warnings ++ is.flatMap fun i ↦ (i.visit s).reports.filter (!i.counts ·)

/-- Whatever becomes of a pass, it adds files that its instances know. -/
structure Watches (is : List Instance) (r r' : PassReport) : Prop where
  modules : r'.modules = r.modules
  joins : PassReport.Joins (fun q ↦ ∃ i ∈ is, q ∈ i.compilation.files.paths) r.modules
    r.dependencies r'.dependencies

section Report

variable {s : Surroundings} {i : Instance} {is : List Instance} {r r' r'' : PassReport}

theorem Watches.trans {js : List Instance} (h : Watches is r r') (h' : Watches js r' r'') :
    Watches (is ++ js) r r'' := by
  refine ⟨h'.modules.trans h.modules, ?_⟩
  have hlater := h.modules ▸ h'.joins
  refine (h.joins.mono ?_).trans (hlater.mono ?_)
  · rintro q ⟨i, hi, hq⟩
    exact ⟨i, List.mem_append_left js hi, hq⟩
  · rintro q ⟨i, hi, hq⟩
    exact ⟨i, List.mem_append_right is hi, hq⟩

theorem Watches.covers (h : Watches is r r') {q : Path} (hq : r.Covers q) : r'.Covers q := by
  have hmem := h.joins.mem_of_mem hq
  rw [← h.modules] at hmem
  exact hmem

theorem watches_watch (i : Instance) (r : PassReport) :
    Watches [i] r (r.watch i.compilation.files.paths) := by
  obtain ⟨watched, hwatch, hjoins, -⟩ := PassReport.watch_spec i.compilation.files.paths r
  rw [hwatch]
  exact ⟨rfl, hjoins.mono fun q hq ↦ ⟨i, List.mem_singleton_self i, hq⟩⟩

theorem watches_taking (i : Instance) (time : Nat) (found : Option (List Report))
    (r : PassReport) : Watches [i] r (r.taking i time i.compilation.files.paths found) := by
  obtain ⟨hmodules, hjoins⟩ := watches_watch i r
  cases found <;> exact ⟨hmodules, hjoins⟩

theorem accounts_nil (s : Surroundings) (r : PassReport) : Accounts s [] r r :=
  ⟨by simp, by simp, by simp⟩

theorem accounts_taking (time : Nat) {found : Option (List Report)}
    (hfound : (i.visit s).found = .ok found) (r : PassReport) :
    Accounts s [i] r (r.taking i time i.compilation.files.paths found) := by
  obtain ⟨watched, hwatch, -, hall⟩ := PassReport.watch_spec i.compilation.files.paths r
  have hreports : (i.visit s).reports = found.getD [] := by
    rw [Visit.reports, hfound]
    cases found <;> rfl
  have hcovered : ∀ j ∈ [i], ∀ q ∈ j.compilation.files.paths,
      ({ r with dependencies := watched } : PassReport).Covers q := by
    intro j hj
    obtain rfl := List.mem_singleton.1 hj
    exact hall
  cases found with
  | none =>
    rw [PassReport.taking, hwatch]
    exact ⟨hcovered, by simp [hreports], by simp [hreports]⟩
  | some reports =>
    rw [PassReport.taking, hwatch]
    refine ⟨hcovered, ?_, ?_⟩
    · rw [List.flatMap_singleton, hreports]
      rfl
    · rw [List.flatMap_singleton, hreports]
      rfl

theorem Accounts.append {js : List Instance} (h : Accounts s is r r') (h' : Accounts s js r' r'')
    (hlater : Watches js r' r'') : Accounts s (is ++ js) r r'' where
  covered i hi q hq := by
    rcases List.mem_append.1 hi with hi | hi
    · exact hlater.covers (h.covered i hi q hq)
    · exact h'.covered i hi q hq
  errors := by rw [h'.errors, h.errors, List.flatMap_append, List.append_assoc]
  warnings := by rw [h'.warnings, h.warnings, List.flatMap_append, List.append_assoc]

end Report

namespace Loader

variable {s : Surroundings} {ctx : BuildContext} {l l' l'' : Loader} {i : Instance}
  {is : List Instance} {r : PassReport}

/-- The instances of a build stay in their places, without checkers and with the files that
they had. -/
structure Settles (ctx : BuildContext) (l l' : Loader) : Prop where
  named : l.Named → l'.Named
  found : ∀ name j, l'.instance? ctx name = some j → ∃ i, l.instance? ctx name = some i ∧
    (i.checker = none → j.checker = none) ∧ j.compilation.files = i.compilation.files

theorem Settles.refl (ctx : BuildContext) (l : Loader) : Settles ctx l l :=
  ⟨id, fun _ j hj ↦ ⟨j, hj, id, rfl⟩⟩

theorem Settles.trans (h : Settles ctx l l') (h' : Settles ctx l' l'') : Settles ctx l l'' := by
  refine ⟨h'.named ∘ h.named, fun name k hk ↦ ?_⟩
  obtain ⟨j, hj, halone', hfiles'⟩ := h'.found name k hk
  obtain ⟨i, hi, halone, hfiles⟩ := h.found name j hj
  exact ⟨i, hi, halone' ∘ halone, hfiles'.trans hfiles⟩

theorem settles_visit (s : Surroundings) (place : l.instance? ctx i.name = some i)
    (halone : i.checker = none) :
    Settles ctx l ((l.put ctx (i.visit s).held).put ctx (i.visit s).left) := by
  obtain ⟨hname, hputs⟩ := puts_visit s l ctx i
  obtain ⟨hleft, hfiles, -⟩ := Instance.visit_here s halone
  refine ⟨fun h ↦ h.puts hputs, fun name j hj ↦ ?_⟩
  rcases hputs.instance? ctx name with ⟨-, rfl, hself⟩ | hsame
  · obtain rfl := Option.some.inj (hself.symm.trans hj)
    exact ⟨i, hname ▸ place, fun _ ↦ hleft, hfiles⟩
  · exact ⟨j, hsame ▸ hj, id, rfl⟩

/-- A pass over instances without checkers. It ends with the first failure of a check; if
there is none, it gives the first reason to stop the build. -/
theorem run_reportInstances (r : PassReport) (hnodup : (is.map Instance.name).Nodup)
    (hplace : ∀ i ∈ is, l.instance? ctx i.name = some i)
    (halone : ∀ i ∈ is, i.checker = none) :
    let o := (reportInstances s ctx is).run (l, r)
    Settles ctx l o.state.1 ∧ Watches is r o.state.2 ∧
      match o.result with
      | .error e => ∃ i ∈ is, (i.visit s).found = .error e
      | .ok reason => Accounts s is r o.state.2 ∧
        reason = is.findSome? fun i ↦ i.bailReason? (i.visit s).reports := by
  induction is generalizing l r with
  | nil => exact ⟨.refl ctx l, ⟨rfl, .done⟩, accounts_nil s r, rfl⟩
  | cons i rest ih =>
    obtain ⟨hnew, hnodup⟩ := List.nodup_cons.1 hnodup
    obtain ⟨hi, hrest⟩ := List.forall_mem_cons.1 hplace
    obtain ⟨hlocal, halone⟩ := List.forall_mem_cons.1 halone
    have hsettles := settles_visit s hi hlocal
    have hrun := run_reportInstance (s := s) r hi
    rw [Instance.knownFiles_here s hlocal] at hrun
    dsimp only at hrun
    rw [reportInstances, Action.run_bind]
    cases hfound : (i.visit s).found with
    | error e =>
      rw [hfound] at hrun
      obtain ⟨calls, hrun⟩ := hrun
      rw [hrun]
      have hwatches : Watches ([i] ++ rest) r (r.watch i.compilation.files.paths) :=
        (watches_watch i r).trans ⟨rfl, .done⟩
      exact ⟨hsettles, hwatches, i, List.mem_cons_self, hfound⟩
    | ok found =>
      rw [hfound] at hrun
      obtain ⟨calls, hrun⟩ := hrun
      have hothers := instance?_visited s hnew hrest
      generalize hr₁ : r.taking i (i.startTime s - s.now) i.compilation.files.paths found = r₁
        at hrun
      have hfirst : Watches [i] r r₁ := hr₁ ▸ watches_taking i _ found r
      have haccounts : Accounts s [i] r r₁ := hr₁ ▸ accounts_taking _ hfound r
      have hreason : found.bind i.bailReason? = i.bailReason? (i.visit s).reports := by
        rw [Visit.reports, hfound]
        cases found with
        | none => exact (if_neg (by simp [PassReport.countErrors])).symm
        | some reports => rfl
      obtain ⟨hnext, hwatches, hresult⟩ := ih r₁ hnodup hothers halone
      obtain ⟨hmap, hstate⟩ := Action.run_bind_pure (reportInstances s ctx rest)
        (fun later ↦ (found.bind i.bailReason?).or later)
        ((l.put ctx (i.visit s).held).put ctx (i.visit s).left, r₁)
      rw [hrun]
      simp only [Outcome.after, hmap, hstate]
      refine ⟨hsettles.trans hnext, hfirst.trans hwatches, ?_⟩
      cases hlater : ((reportInstances s ctx rest).run ((l.put ctx (i.visit s).held).put ctx
          (i.visit s).left, r₁)).result with
      | error e =>
        rw [hlater] at hresult
        exact hresult.imp fun j hj ↦ ⟨List.mem_cons_of_mem i hj.1, hj.2⟩
      | ok later =>
        rw [hlater] at hresult
        obtain ⟨hrestAccounts, hfirstReason⟩ := hresult
        refine ⟨haccounts.append hrestAccounts hwatches, ?_⟩
        rw [List.findSome?_cons, ← hreason, hfirstReason]
        cases found.bind i.bailReason? <;> rfl

theorem result_afterPass (s : Surroundings) (ctx : BuildContext) (l : Loader) (r : PassReport) :
    ((afterPass s ctx).run (l, r)).result =
      ((reportInstances s ctx (l.instances ctx)).run (l, r)).result.bind fun reason ↦
        match reason with
        | none => .ok ()
        | some reason => .error (.bail none reason) := by
  have hread : (onLoader Action.get).run (l, r) = ⟨.ok l, (l, r), []⟩ := rfl
  rw [afterPass, Action.run_bind_of_still hread]
  cases hresult : ((reportInstances s ctx (l.instances ctx)).run (l, r)).result with
  | error e => rw [Action.run_bind_of_error hresult, Except.bind]
  | ok reason =>
    rw [Action.run_bind_of_ok hresult]
    cases reason <;> rfl

theorem place_of_named (hl : l.Named) : ∀ i ∈ l.instances ctx, l.instance? ctx i.name = some i := by
  intro i hi
  obtain ⟨name, hfound⟩ := mem_instances.1 hi
  rw [hl ctx name i hfound]
  exact hfound

theorem afterPass_ends (hl : l.Named) (halone : ∀ i ∈ l.instances ctx, i.checker = none)
    (r : PassReport) (hfound : ∀ i ∈ l.instances ctx, ∃ found, (i.visit s).found = .ok found) :
    ((afterPass s ctx).run (l, r)).result = .ok () ∨
      ∃ file reason, ((afterPass s ctx).run (l, r)).result = .error (.bail file reason) := by
  obtain ⟨-, -, hresult⟩ := run_reportInstances (s := s) r (nodup_instances hl ctx)
    (place_of_named hl) halone
  rw [result_afterPass]
  cases hreported : ((reportInstances s ctx (l.instances ctx)).run (l, r)).result with
  | error e =>
    rw [hreported] at hresult
    obtain ⟨i, hi, herror⟩ := hresult
    obtain ⟨found, hok⟩ := hfound i hi
    cases herror.symm.trans hok
  | ok reason =>
    cases reason with
    | none => exact Or.inl rfl
    | some reason => exact Or.inr ⟨none, reason, rfl⟩

/-- Where all known files are covered, a pass adds none. -/
theorem dependencies_afterPass_of_covered (s : Surroundings) (hsettles : Settles ctx l l')
    (hl : l.Named) (halone : ∀ i ∈ l.instances ctx, i.checker = none)
    (hcovered : ∀ i ∈ l.instances ctx, ∀ q ∈ i.compilation.files.paths, r.Covers q) :
    ((afterPass s ctx).run (l', r)).state.2.dependencies = r.dependencies := by
  have hl' : l'.Named := hsettles.named hl
  have hfrom : ∀ j ∈ l'.instances ctx, ∃ i ∈ l.instances ctx,
      (i.checker = none → j.checker = none) ∧ j.compilation.files = i.compilation.files := by
    intro j hj
    obtain ⟨name, hplace⟩ := mem_instances.1 hj
    obtain ⟨i, hi, hrest⟩ := hsettles.found name j hplace
    exact ⟨i, mem_instances.2 ⟨name, hi⟩, hrest⟩
  have halone' : ∀ j ∈ l'.instances ctx, j.checker = none := by
    intro j hj
    obtain ⟨i, hi, hchecker, -⟩ := hfrom j hj
    exact hchecker (halone i hi)
  obtain ⟨-, hwatches, -⟩ := run_reportInstances (s := s) r (nodup_instances hl' ctx)
    (place_of_named hl') halone'
  rw [(run_afterPass s ctx l' r).1]
  refine hwatches.joins.eq_of_covered ?_
  rintro q ⟨j, hj, hq⟩
  obtain ⟨i, hi, -, hfiles⟩ := hfrom j hj
  exact hcovered i hi q (hfiles ▸ hq)

/-- A pass that ends, or that stops the build, has watched every file that its instances
know, each of them once, and has listed every diagnostic that their runs have found, each
of them once. It stops the build for the first instance that has a reason to, and to run it
again adds no file to watch. -/
theorem pass_accounts (s : Surroundings) (ctx : BuildContext) {l : Loader} (hl : l.Named)
    (halone : ∀ i ∈ l.instances ctx, i.checker = none) (r : PassReport)
    (hend : ((afterPass s ctx).run (l, r)).result = .ok () ∨
      ∃ file reason, ((afterPass s ctx).run (l, r)).result = .error (.bail file reason)) :
    let is := l.instances ctx
    let o := (afterPass s ctx).run (l, r)
    let r' := o.state.2
    is.Pairwise (fun i j ↦ i.name < j.name) ∧
    (∀ i ∈ is, (i.visit s).found =
      if i.debouncer.changed.isSome = true ∧ i.debouncer.inFlight = false then
        ((Instance.diagnostics s).run i).result.map some
      else .ok none) ∧
    r'.modules = r.modules ∧
    (∃ added, r'.dependencies = r.dependencies ++ added ∧
      ∀ before f after, added = before ++ f :: after →
        (∃ q, (∃ i ∈ is, q ∈ i.compilation.files.paths) ∧ f = q.normalize) ∧
        f ∉ (r.modules ++ (r.dependencies ++ before)).map Path.normalize) ∧
    Accounts s is r r' ∧
    ((∃ file reason, o.result = .error (.bail file reason)) ↔ ∃ i ∈ is, i.Stops s) ∧
    (∀ before i after, is = before ++ i :: after → (∀ j ∈ before, ¬j.Stops s) → i.Stops s →
      o.result = .error (.bail none (toString (PassReport.countErrors (i.visit s).reports) ++
        " type errors in instance '" ++ i.name ++ "'"))) ∧
    ∀ s' l', l' = l ∨ l' = o.state.1 →
      ((afterPass s' ctx).run (l', r')).state.2.dependencies = r'.dependencies := by
  intro is o r'
  obtain ⟨hsettles, hwatches, hresult⟩ := run_reportInstances (s := s) r (nodup_instances hl ctx)
    (place_of_named hl) halone
  have hpass := result_afterPass s ctx l r
  rw [← (run_afterPass s ctx l r).1] at hsettles hwatches hresult
  cases hreported : ((reportInstances s ctx is).run (l, r)).result with
  | error e =>
    rw [hreported] at hresult hpass
    obtain ⟨i, hi, hfound⟩ := hresult
    obtain ⟨cause, rfl⟩ := (Instance.visit_here s (halone i hi)).2.2 e hfound
    rcases hend with hend | ⟨file, reason, hend⟩
    · cases hpass.symm.trans hend
    · cases hpass.symm.trans hend
  | ok reason =>
    rw [hreported] at hresult hpass
    obtain ⟨haccounts, hreason⟩ := hresult
    refine ⟨sorted_instances hl ctx, fun i hi ↦ i.found_visit_here s (halone i hi),
      hwatches.modules, hwatches.joins.added, haccounts, ?_, ?_, ?_⟩
    · have hstops : (∃ text, reason = some text) ↔ ∃ i ∈ is, i.Stops s := by
        rw [hreason, ← Option.isSome_iff_exists, List.findSome?_isSome_iff]
        refine exists_congr fun i ↦ and_congr_right fun _ ↦ ?_
        exact Instance.isSome_bailReason?
      rw [← hstops]
      have ho : o.result = _ := hpass
      rw [ho]
      cases reason with
      | none => simp [Except.bind]
      | some text => simp [Except.bind]
    · intro before i after his hbefore hi
      have hfirst : reason = i.bailReason? (i.visit s).reports := by
        have hnone : before.findSome? (fun j ↦ j.bailReason? (j.visit s).reports) = none :=
          List.findSome?_eq_none_iff.2 fun j hj ↦ Instance.bailReason?_of_not_stops (hbefore j hj)
        have his : l.instances ctx = before ++ i :: after := his
        rw [hreason, his, List.findSome?_append, hnone, Option.none_or, List.findSome?_cons,
          Instance.bailReason?_of_stops hi]
      rw [Instance.bailReason?_of_stops hi] at hfirst
      rw [hfirst] at hpass
      exact hpass
    · rintro s' l' (rfl | rfl)
      · exact dependencies_afterPass_of_covered s' (.refl ctx l') hl halone haccounts.covered
      · exact dependencies_afterPass_of_covered s' hsettles hl halone haccounts.covered

/-- An error stops the build that asks for it. -/
theorem pass_stops_for_finding :
    let d : Diagnostic := ⟨.error, 2322, "/a.ts", 0, 1, .node "wrong" []⟩
    let s : Surroundings := { Surroundings.plain with
      world := { World.plain with
        compiler := { World.plain.compiler with build := fun _ ↦ .ok (.finding d) } } }
    let i : Instance := {
      Instance.plain ((Compilation.make [] .sensitive).add ⟨"/a.ts"⟩ "a") with
      config := { bail := true }
      debouncer := { window := 100, changed := some 0 } }
    let ctx : BuildContext := .top 0 "main"
    let l : Loader := ({ disk := {} } : Loader).put ctx i
    l.Named ∧ (∀ j ∈ l.instances ctx, j.checker = none) ∧
      ∃ file reason, ((afterPass s ctx).run (l, {})).result = .error (.bail file reason) := by
  intro d s i ctx l
  have hempty : ({ disk := {} } : Loader).Named := (tidy_empty {}).named
  have hputs : Puts { disk := {} } ctx i l := puts_put _ ctx i
  have hl : l.Named := hempty.puts hputs
  have hall : ∀ j ∈ l.instances ctx, j = i := by
    intro j hj
    obtain ⟨name, hplace⟩ := mem_instances.1 hj
    rcases hputs.instance? ctx name with ⟨-, -, hself⟩ | hsame
    · exact Option.some.inj (hplace.symm.trans hself)
    · rw [hsame, instance?_empty] at hplace
      cases hplace
  have halone : ∀ j ∈ l.instances ctx, j.checker = none := fun j hj ↦ (hall j hj) ▸ rfl
  have hmem : i ∈ l.instances ctx := mem_instances.2 ⟨_, hputs.self⟩
  obtain ⟨r, herror, hfound⟩ : ∃ r : Report, r.isError = true ∧
      (i.visit s).found = .ok (some [r]) := by
    have hprogram : ((Compilation.program s.world).run i.compilation).result =
        .ok (.finding d) := rfl
    have hreports := Compilation.run_reports_of_ok i.filter i.context hprogram
    rcases Compilation.mapM_report? i.compilation s.world.coloured i.context [d] with
      ⟨⟨d', hd', hdeep⟩, -⟩ | ⟨-, _, hsome, _ | ⟨hshows, _ | _⟩⟩
    · obtain rfl := List.mem_singleton.1 hd'
      exact absurd hdeep (by decide)
    · have hkept : (Program.finding d).diagnostics i.filter = [d] := rfl
      rw [hkept, hsome] at hreports
      refine ⟨_, decide_eq_true hshows.category, ?_⟩
      rw [i.found_visit_here s rfl, if_pos ⟨rfl, rfl⟩, Instance.diagnostics_here s rfl]
      exact congrArg (fun o ↦ (o.mapError LoadError.checker).map some) hreports
  have hends := afterPass_ends (s := s) hl halone {} fun j hj ↦ ⟨_, (hall j hj) ▸ hfound⟩
  obtain ⟨-, -, -, -, -, hstops, -⟩ := pass_accounts s ctx hl halone {} hends
  refine ⟨hl, halone, hstops.2 ⟨i, hmem, rfl, rfl, r, ?_, herror⟩⟩
  rw [Visit.reports, hfound]
  exact List.mem_singleton_self r

end Loader

end TypedLoader
