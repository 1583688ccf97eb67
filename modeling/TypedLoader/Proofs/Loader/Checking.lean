import TypedLoader.Proofs.Loader.Rebuilds

namespace TypedLoader

open TypedLoader.Action (Keeps)

namespace Instance

variable {s : Surroundings} {i j k : Instance} {α : Type}

structure Still (i j : Instance) : Prop where
  config : j.config = i.config
  debouncer : j.debouncer = i.debouncer

theorem Still.refl (i : Instance) : i.Still i := ⟨rfl, rfl⟩

theorem Still.trans (h : i.Still j) (h' : j.Still k) : i.Still k :=
  ⟨h'.config.trans h.config, h'.debouncer.trans h.debouncer⟩

theorem Still.name (h : i.Still j) : j.name = i.name :=
  congrArg LoaderConfig.instanceName h.config

theorem keeps_perform (remote : Client.Act α) (here : Action Compilation LoadError α) :
    Keeps i.Still (perform remote here) := by
  intro j h
  refine h.trans ?_
  cases hc : j.checker with
  | none =>
    rw [run_perform_here hc]
    exact ⟨rfl, rfl⟩
  | some client =>
    rw [run_perform_remote hc]
    exact ⟨rfl, rfl⟩

theorem keeps_compile (s : Surroundings) (file : Path) (text : String) :
    Keeps i.Still (Instance.compile s file text) := by
  refine .bind Action.keeps_get fun j ↦ .bind (keeps_perform _ _) fun compiled ↦ ?_
  split
  · exact Action.keeps_pure _
  · exact Action.keeps_fail _

theorem keeps_diagnostics (s : Surroundings) : Keeps i.Still (diagnostics s) :=
  .bind Action.keeps_get fun _ ↦ keeps_perform _ _

theorem still_knownFiles (s : Surroundings) (i : Instance) :
    i.Still ((knownFiles s).run i).state := keeps_perform _ _ i (.refl i)

theorem result_diagnostics (s : Surroundings) (i : Instance) (debouncer : Debouncer) :
    ((diagnostics s).run { i with debouncer }).result = ((diagnostics s).run i).result := by
  obtain ⟨serial, config, context, identifier, compilation, checker, cache, filter, _⟩ := i
  cases checker <;> rfl

theorem run_freshDiagnostics_of_quiet (s : Surroundings) (h : i.debouncer.changed = none) :
    (freshDiagnostics s).run i = ⟨.ok none, i, []⟩ := by
  have hstart : (tryStart s).run i = ⟨.ok false, i, []⟩ := by
    rw [tryStart, Action.run_update, Debouncer.tryStart, Debouncer.deadline, h]
    rfl
  rw [freshDiagnostics, Action.run_bind_of_still hstart]
  rfl

theorem run_freshDiagnostics_of_changed (s : Surroundings) {time : Nat}
    (h : i.debouncer.changed = some time) (hidle : i.debouncer.inFlight = false) :
    let o := (freshDiagnostics s).run i
    o.result = ((diagnostics s).run i).result.map some ∧
      o.state.debouncer = { i.debouncer with changed := none } := by
  intro o
  let started : Instance :=
    { i with debouncer := { i.debouncer with changed := none, inFlight := true } }
  have hdue : i.debouncer.deadline = some (time + i.debouncer.window) := by
    rw [Debouncer.deadline, h]
    rfl
  have hstart : (tryStart s).run i = ⟨.ok true, started, []⟩ := by
    have hlate : ¬i.startTime s < time + i.debouncer.window := by
      rw [startTime, hdue, Option.getD_some]
      omega
    have htry : i.debouncer.tryStart (i.startTime s) =
        (true, { i.debouncer with changed := none, inFlight := true }) := by
      simp only [Debouncer.tryStart, hdue, hidle, hlate, decide_false, Bool.or_self,
        Bool.false_eq_true, if_false]
    rw [tryStart, Action.run_update, htry]
  have hstill := keeps_diagnostics s started (.refl started)
  have hresult : ((diagnostics s).run started).result = ((diagnostics s).run i).result :=
    result_diagnostics s i started.debouncer
  have hleft : ((diagnostics s).run started).state.debouncer.finish.2 =
      { i.debouncer with changed := none } := by
    rw [hstill.debouncer]
    exact congrArg (fun inFlight ↦ { i.debouncer with changed := none, inFlight }) hidle.symm
  rw [← hresult]
  change ((freshDiagnostics s).run i).result = _ ∧ ((freshDiagnostics s).run i).state.debouncer = _
  rw [freshDiagnostics, Action.run_bind, hstart]
  dsimp only
  rw [if_pos rfl, Action.run_bind, Action.run_attempt]
  cases ((diagnostics s).run started).result with
  | error e => exact ⟨rfl, hleft⟩
  | ok reports => exact ⟨rfl, hleft⟩

theorem config_freshDiagnostics (s : Surroundings) (i : Instance) :
    ((freshDiagnostics s).run i).state.config = i.config := by
  have hkeeps : Keeps (fun j ↦ j.config = i.config) (freshDiagnostics s) := by
    refine .bind (fun _ h ↦ h) fun started ↦ ?_
    split
    · have hdiagnostics : Keeps (fun j ↦ j.config = i.config) (diagnostics s) :=
        fun j h ↦ (keeps_diagnostics s j (.refl j)).config.trans h
      refine .bind hdiagnostics.attempt fun found ↦ .bind (Action.keeps_modify fun _ h ↦ h)
        fun _ ↦ ?_
      split
      · exact Action.keeps_pure _
      · exact Action.keeps_fail _
    · exact Action.keeps_pure _
  exact hkeeps i rfl

theorem debouncer_filesChanged (s : Surroundings) (changed : List Path) (i : Instance) :
    ((filesChanged s changed).run i).state.debouncer = i.debouncer.notify s.now := by
  let refreshed : Instance :=
    { i with compilation := ((refresh s changed).run i.compilation).state }
  have hstill := keeps_perform (forwardAll s changed) (pure ()) refreshed (.refl refreshed)
  obtain ⟨calls, hperform⟩ : ∃ calls, (perform (forwardAll s changed) (pure ())).run refreshed =
      ⟨.ok (), ((perform (forwardAll s changed) (pure ())).run refreshed).state, calls⟩ := by
    cases hc : refreshed.checker with
    | none =>
      rw [run_perform_here hc]
      exact ⟨_, rfl⟩
    | some client =>
      rw [run_perform_remote hc, result_forwardAll]
      exact ⟨_, rfl⟩
  rw [(run_filesChanged hperform).2]
  exact congrArg (·.notify s.now) hstill.debouncer

end Instance

namespace Loader

variable {s : Surroundings} {ctx : BuildContext} {l l' : Loader} {i : Instance} {α β : Type}

def Stays (l : Loader) (ctx : BuildContext) (i : Instance) (l' : Loader) : Prop :=
  ∃ j, Puts l ctx j l' ∧ i.Still j

theorem Stays.found (h : Stays l ctx i l') : ∃ j, l'.instance? ctx i.name = some j ∧
    Puts l ctx j l' ∧ i.Still j := by
  obtain ⟨j, hputs, hstill⟩ := h
  exact ⟨j, hstill.name ▸ hputs.self, hputs, hstill⟩

theorem keeps_within {a : Instance.Act α} (ha : Keeps i.Still a) :
    Keeps (Stays l ctx i) (within ctx i a) := by
  intro l' h
  obtain ⟨j, hfound, hputs, hstill⟩ := h.found
  have hnext := ha j hstill
  rw [run_within hfound]
  exact ⟨_, hputs.trans (puts_put l' ctx _) (hnext.name.trans hstill.name.symm), hnext⟩

theorem keeps_countStart : Keeps (Stays l ctx i) countStart :=
  fun _ ⟨j, hputs, hstill⟩ ↦ ⟨j, ⟨hputs.self, hputs.others, hputs.disk⟩, hstill⟩

theorem keeps_loaderCompile (s : Surroundings) (file : Path) (text : String) :
    Keeps (Stays l ctx i) (compile s ctx i file text) := by
  have hcompile : Keeps (Stays l ctx i) (within ctx i (Instance.compile s file text)) :=
    keeps_within (Instance.keeps_compile s file text)
  refine .bind hcompile.attempt fun r ↦ ?_
  split
  · refine .bind ?_ fun _ ↦ hcompile
    rw [resetChecker]
    split
    · exact .bind keeps_countStart fun n ↦ keeps_within (Instance.keeps_perform _ _)
    · exact Action.keeps_pure ()
  · exact fun _ h ↦ h

theorem run_notified {a : Act α} {f : α → Act β} (ha : Keeps (Stays l ctx i) a)
    (hl : Stays l ctx i l)
    (hf : ∀ x l, ∃ y, ((f x).run l).result = .ok y ∧
      ∀ ctx name, ((f x).run l).state.instance? ctx name = l.instance? ctx name) :
    let o := (a >>= fun x ↦ within ctx i (Instance.notify s) >>= fun _ ↦ f x).run l
    ∃ j l₁, Puts l ctx j l₁ ∧ j.config = i.config ∧
      j.debouncer = (if o.result.isOk then i.debouncer.notify s.now else i.debouncer) ∧
      ∀ ctx name, o.state.instance? ctx name = l₁.instance? ctx name := by
  intro o
  obtain ⟨j, hfound, hputs, hstill⟩ := (ha l hl).found
  cases hr : (a.run l).result with
  | error e =>
    have ho : o = _ := Action.run_bind_of_error hr _
    rw [ho]
    exact ⟨j, _, hputs, hstill.config, hstill.debouncer, fun _ _ ↦ rfl⟩
  | ok x =>
    have ho : o = _ := Action.run_bind_of_ok hr _
    rw [run_notify_bind hfound] at ho
    let notified : Instance := { j with debouncer := j.debouncer.notify s.now }
    obtain ⟨y, hy, hstate⟩ := hf x ((a.run l).state.put ctx notified)
    refine ⟨notified, _, hputs.trans (puts_put _ ctx notified) rfl, hstill.config, ?_, ?_⟩
    · have hok : o.result = .ok y := by
        rw [ho]
        exact hy
      rw [hok]
      exact congrArg (·.notify s.now) hstill.debouncer
    · intro ctx' name
      rw [ho]
      exact hstate ctx' name

theorem same_make (s : Surroundings) (config : LoaderConfig) (bundler : Json) (l : Loader) :
    Same l ((make s config bundler).run l).state := by
  have hsame : Same l l := ⟨fun _ _ ↦ rfl, rfl⟩
  cases hproject : config.project l.disk (config.context.getD s.workingDirectory) with
  | error e =>
    rw [(run_make_of_error hproject).2]
    exact hsame
  | ok project =>
    have hgiven {α : Type} (x : Except LoadError α) :
        Keeps (Same l) (Action.ofExcept x : Act α) := fun _ h ↦ h
    have hstart (setup : Setup) : Keeps (Same l) (startChecker s config
        (config.context.getD s.workingDirectory) setup) := by
      refine .bind (hgiven _) fun connector ↦ .bind (fun _ h ↦ ⟨h.instance?, h.disk⟩) fun n ↦
        .bind (hgiven _) fun client l' h ↦ ?_
      rw [Action.state_execOn]
      exact h
    rw [(run_make s bundler hproject).2, checkerFor]
    split
    · exact (hstart _).bind (fun _ ↦ Action.keeps_pure _) l hsame
    · exact hsame

theorem make_quiet {config : LoaderConfig} {bundler : Json}
    (h : ((make s config bundler).run l).result = .ok i) :
    i.config = config ∧ i.debouncer = { window := config.debounceMs } := by
  obtain ⟨_, _, _, -, -, -, rfl⟩ := assembled_of_make h
  exact ⟨rfl, rfl⟩

def loadWith (s : Surroundings) (ctx : BuildContext) (m : ModuleRequest) (i : Instance) :
    Act LoadedModule := do
  let l ← Action.get
  match cached? i m l with
  | some hit =>
    let deps ← within ctx i (Instance.register s m.path.normalize m.source)
    within ctx i (Instance.notify s)
    pure (LoadedModule.ofCached hit deps)
  | none =>
    let compiled ← (compile s ctx i m.path.normalize m.source).mapError (bailed i m.path.normalize)
    within ctx i (Instance.notify s)
    let loaded := LoadedModule.ofCompiled compiled
    Action.modify (store i m loaded)
    pure loaded

theorem run_load_of_ok {config : LoaderConfig} {m : ModuleRequest}
    (hconfig : LoaderConfig.resolve m.options m.query = .ok config) :
    (load s ctx m).run l = (ensure s ctx config m.options >>= loadWith s ctx m).run l := by
  rw [load, Action.run_ofExcept_bind hconfig]
  rfl

theorem run_loadWith (s : Surroundings) (m : ModuleRequest) (hl : Stays l ctx i l) :
    let o := (loadWith s ctx m i).run l
    ∃ j l₁, Puts l ctx j l₁ ∧ j.config = i.config ∧
      j.debouncer = (if o.result.isOk then i.debouncer.notify s.now else i.debouncer) ∧
      ∀ ctx name, o.state.instance? ctx name = l₁.instance? ctx name := by
  dsimp only
  rw [loadWith, Action.run_get_bind]
  cases cached? i m l with
  | some hit =>
    exact run_notified (keeps_within (Instance.keeps_perform _ _)) hl
      fun deps l ↦ ⟨_, rfl, fun _ _ ↦ rfl⟩
  | none =>
    exact run_notified ((keeps_loaderCompile s _ _).mapError _) hl
      fun compiled l ↦ ⟨_, rfl, instance?_store i m _ l⟩

end Loader

theorem Load.run_ensure_cases (x : Load) (config : LoaderConfig) {l : Loader} (hl : l.Named) :
    let o := (Loader.ensure x.surroundings x.context config x.request.options).run l
    (∃ e, o.result = .error e ∧ Loader.Same l o.state) ∨
    ∃ i, o.result = .ok i ∧ i.name = config.instanceName ∧ Loader.Puts l x.context i o.state ∧
      (l.instance? x.context i.name = some i ∨
        l.instance? x.context i.name = none ∧ i.debouncer = { window := config.debounceMs }) := by
  intro o
  have hrun : o = _ := run_ensure_eq x config l
  cases hplace : l.instance? x.context config.instanceName with
  | some i =>
    rw [hplace] at hrun
    have hname := hl x.context _ i hplace
    have hfound : l.instance? x.context i.name = some i := hname ▸ hplace
    rw [hrun]
    exact Or.inr ⟨i, rfl, hname, Loader.puts_of_found hfound, Or.inl hfound⟩
  | none =>
    rw [hplace] at hrun
    dsimp only at hrun
    have hsame := Loader.same_make x.surroundings config x.request.options l
    cases hmake : ((Loader.make x.surroundings config x.request.options).run l).result with
    | error e =>
      rw [Action.run_bind_of_error hmake] at hrun
      rw [hrun]
      exact Or.inl ⟨e, rfl, hsame⟩
    | ok i =>
      obtain ⟨hconfig, hdebouncer⟩ := Loader.make_quiet hmake
      have hname : i.name = config.instanceName := congrArg LoaderConfig.instanceName hconfig
      have hputs := Loader.puts_put
        ((Loader.make x.surroundings config x.request.options).run l).state x.context i
      rw [Action.run_bind_of_ok hmake] at hrun
      rw [hrun]
      refine Or.inr ⟨i, rfl, hname, ⟨hputs.self, fun ctx' name h ↦ ?_, hsame.disk⟩,
        Or.inr ⟨hname ▸ hplace, hdebouncer⟩⟩
      exact (hputs.others ctx' name h).trans (hsame.instance? ctx' name)

/-- A load fails without an instance, or it has put one in the place that it asks for. If
it has succeeded, that instance has been told of a change. -/
theorem Load.run_cases (x : Load) {l : Loader} (hl : l.Named) :
    ((x.run l).result.isOk = false ∧
      ∀ ctx name, (x.run l).state.instance? ctx name = l.instance? ctx name) ∨
    ∃ i j l₁, x.Asks x.context i.name ∧
      (l.instance? x.context i.name = some i ∨
        l.instance? x.context i.name = none ∧ ∃ window, i.debouncer = { window }) ∧
      Loader.Puts l x.context j l₁ ∧ j.config = i.config ∧
      j.debouncer = (if (x.run l).result.isOk then i.debouncer.notify x.surroundings.now
        else i.debouncer) ∧
      ∀ ctx name, (x.run l).state.instance? ctx name = l₁.instance? ctx name := by
  cases hconfig : LoaderConfig.resolve x.request.options x.request.query with
  | error e =>
    rw [run, Loader.run_load_of_error hconfig]
    exact Or.inl ⟨rfl, fun _ _ ↦ rfl⟩
  | ok config =>
    have hasked : x.config? = some config := by rw [config?, hconfig]; rfl
    rw [run, Loader.run_load_of_ok hconfig]
    rcases x.run_ensure_cases config hl with
      ⟨e, he, hsame⟩ | ⟨i, hi, hname, hputs, hplace⟩
    · rw [Action.run_bind_of_error he]
      exact Or.inl ⟨rfl, hsame.instance?⟩
    · generalize hensured : ((Loader.ensure x.surroundings x.context config
        x.request.options).run l).state = l' at hputs
      obtain ⟨j, l₁, hj, hsetup, hdebouncer, hstate⟩ := Loader.run_loadWith x.surroundings x.request
        ⟨i, Loader.puts_of_found hputs.self, .refl i⟩
      rw [Action.run_bind_of_ok hi, hensured]
      refine Or.inr ⟨i, j, l₁, ⟨rfl, by rw [hasked, hname]; rfl⟩, ?_,
        hputs.trans hj (congrArg LoaderConfig.instanceName hsetup), hsetup, hdebouncer, hstate⟩
      exact hplace.imp_right fun h ↦ ⟨h.1, _, h.2⟩

end TypedLoader
