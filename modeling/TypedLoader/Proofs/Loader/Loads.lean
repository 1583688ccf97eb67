import TypedLoader.Proofs.Loader.Holding

namespace TypedLoader

namespace Loader

variable {s : Surroundings} {home : WorkerHome} {ctx : BuildContext} {config : LoaderConfig}
  {bundler : Json} {l l' l₁ l₂ : Loader} {i j : Instance}

structure Same (l l' : Loader) : Prop where
  instance? : ∀ ctx name, l'.instance? ctx name = l.instance? ctx name
  disk : l'.disk = l.disk

/-- An instance is put in its place, and everything else stays. -/
structure Puts (l : Loader) (ctx : BuildContext) (i : Instance) (l' : Loader) : Prop where
  self : l'.instance? ctx i.name = some i
  others : ∀ ctx' name, ctx'.tree ≠ ctx.tree ∨ name ≠ i.name →
    l'.instance? ctx' name = l.instance? ctx' name
  disk : l'.disk = l.disk

theorem instance?_of_tree {ctx' : BuildContext} (h : ctx'.tree = ctx.tree) (l : Loader)
    (name : String) : l.instance? ctx' name = l.instance? ctx name := by
  rw [Loader.instance?, Loader.instance?, instancesOf, instancesOf, h]

theorem puts_put (l : Loader) (ctx : BuildContext) (i : Instance) : Puts l ctx i (l.put ctx i) where
  self := by
    rw [instance?, instancesOf, put, Std.ExtTreeMap.getElem?_insert_self, Option.getD_some,
      Std.ExtTreeMap.getElem?_insert_self]
  others ctx' name h := by
    rw [instance?, instance?, instancesOf, put, Std.ExtTreeMap.getElem?_insert]
    split
    · rename_i htree
      have htree : ctx.tree = ctx'.tree := Std.LawfulEqCmp.compare_eq_iff_eq.1 htree
      have hname : i.name ≠ name := (h.resolve_left (not_not.2 htree.symm)).symm
      rw [Option.getD_some, Std.ExtTreeMap.getElem?_insert, if_neg, instancesOf, instancesOf, htree]
      exact fun he ↦ hname (Std.LawfulEqCmp.compare_eq_iff_eq.1 he)
    · rfl
  disk := rfl

theorem puts_of_found (h : l.instance? ctx i.name = some i) : Puts l ctx i l :=
  ⟨h, fun _ _ _ ↦ rfl, rfl⟩

theorem Puts.trans (h : Puts l ctx i l₁) (h' : Puts l₁ ctx j l₂) (hname : j.name = i.name) :
    Puts l ctx j l₂ where
  self := h'.self
  others ctx' name hother :=
    (h'.others ctx' name hother).trans (h.others ctx' name (hname ▸ hother))
  disk := h'.disk.trans h.disk

theorem Puts.instance? (h : Puts l ctx i l') (ctx' : BuildContext) (name : String) :
    ctx'.tree = ctx.tree ∧ name = i.name ∧ l'.instance? ctx' name = some i ∨
      l'.instance? ctx' name = l.instance? ctx' name := by
  by_cases htree : ctx'.tree = ctx.tree
  · by_cases hname : name = i.name
    · subst hname
      exact Or.inl ⟨htree, rfl, (instance?_of_tree htree l' _).trans h.self⟩
    · exact Or.inr (h.others ctx' name (Or.inr hname))
  · exact Or.inr (h.others ctx' name (Or.inl htree))

theorem run_within {ε α : Type} (h : l.instance? ctx i.name = some j) (a : Action Instance ε α) :
    (within ctx i a).run l = ⟨(a.run j).result, l.put ctx (a.run j).state, (a.run j).calls⟩ := by
  rw [Action.run, within, Action.within]
  simp only [h, Option.getD_some]
  rfl

theorem run_notify_bind {α : Type} (h : l.instance? ctx i.name = some j) (f : Unit → Act α) :
    (within ctx i (Instance.notify s) >>= f).run l =
      (f ()).run (l.put ctx { j with debouncer := j.debouncer.notify s.now }) := by
  rw [Action.run_bind, run_within h]
  rfl

theorem run_compile_of {file : Path} {text : String} (h : l.instance? ctx i.name = some i)
    (halive : ((Instance.compile s file text).run i).result ≠ .error (.checker .exited)) :
    let o := (Instance.compile s file text).run i
    ((compile s ctx i file text).run l).result = o.result ∧
      ((compile s ctx i file text).run l).state = l.put ctx o.state := by
  have hrun := run_within h (Instance.compile s file text)
  rw [compile, Action.run_bind]
  have hattempt : ((within ctx i (Instance.compile s file text)).attempt :
      Act (Except LoadError CompiledModule)).run l =
        ⟨.ok ((Instance.compile s file text).run i).result,
          l.put ctx ((Instance.compile s file text).run i).state,
          ((Instance.compile s file text).run i).calls⟩ := by
    have hstep : ((within ctx i (Instance.compile s file text)).attempt :
        Act (Except LoadError CompiledModule)).run l =
          ⟨.ok ((within ctx i (Instance.compile s file text)).run l).result,
            ((within ctx i (Instance.compile s file text)).run l).state,
            ((within ctx i (Instance.compile s file text)).run l).calls⟩ := rfl
    rw [hstep, hrun]
  rw [hattempt]
  dsimp only
  split
  · rename_i he
    exact absurd he halive
  · exact ⟨rfl, rfl⟩

section Loading

variable {m : ModuleRequest} {hit : CachedOutput}

theorem run_load_of_error {e : ConfigError}
    (hconfig : LoaderConfig.resolve m.options m.query = .error e) :
    (load s ctx m).run l = ⟨.error (.config e), l, []⟩ := by
  have hread : ((Action.ofExcept ((LoaderConfig.resolve m.options m.query).mapError
      LoadError.config) : Act LoaderConfig).run l).result = .error (.config e) := by
    rw [hconfig]
    rfl
  rw [load, Action.run_bind_of_error hread]
  rfl

section Found

variable (hconfig : LoaderConfig.resolve m.options m.query = .ok config)
  (hensure : ((ensure s ctx config m.options).run l).result = .ok i)

include hconfig hensure

/-- A module that is in the cache is registered. -/
theorem run_load_served {l₁ : Loader} (hstate : ((ensure s ctx config m.options).run l).state = l₁)
    (hfound : l₁.instance? ctx i.name = some i) (hhit : cached? i m l₁ = some hit) :
    let o := (Instance.register s m.path.normalize m.source).run i
    ((load s ctx m).run l).result = o.result.map (LoadedModule.ofCached hit) ∧
      ∃ debouncer, Puts l₁ ctx { o.state with debouncer } ((load s ctx m).run l).state := by
  intro o
  have hname := (Instance.sameSetup_register s m.path.normalize m.source i).name
  rw [load, Action.run_ofExcept_bind hconfig, Action.run_bind_of_ok hensure, hstate]
  simp only [Outcome.after]
  rw [Action.run_get_bind, hhit]
  dsimp only
  have hregister := run_within hfound (Instance.register s m.path.normalize m.source)
  cases hr : o.result with
  | error e =>
    have hfail : ((within ctx i (Instance.register s m.path.normalize m.source)).run l₁).result =
        .error e := by
      rw [hregister]
      exact hr
    rw [Action.run_bind_of_error hfail, hregister]
    exact ⟨rfl, o.state.debouncer, puts_put l₁ ctx o.state⟩
  | ok deps =>
    have hok : ((within ctx i (Instance.register s m.path.normalize m.source)).run l₁).result =
        .ok deps := by
      rw [hregister]
      exact hr
    have hput := puts_put l₁ ctx o.state
    have hself : (l₁.put ctx o.state).instance? ctx i.name = some o.state := hname ▸ hput.self
    have hrest := run_notify_bind (s := s) hself
      fun _ ↦ (pure (LoadedModule.ofCached hit deps) : Act LoadedModule)
    rw [Action.run_bind_of_ok hok, hregister]
    simp only [Outcome.after]
    rw [hrest]
    exact ⟨rfl, _, hput.trans (puts_put _ ctx _) rfl⟩

/-- Any other module is compiled, and kept in the cache of the instance. -/
theorem run_load_compiled {l₁ : Loader}
    (hstate : ((ensure s ctx config m.options).run l).state = l₁)
    (hfound : l₁.instance? ctx i.name = some i) (hmiss : cached? i m l₁ = none)
    (halive : ((Instance.compile s m.path.normalize m.source).run i).result ≠
      .error (.checker .exited)) :
    let o := (Instance.compile s m.path.normalize m.source).run i
    ((load s ctx m).run l).result =
        (o.result.mapError (bailed i m.path.normalize)).map LoadedModule.ofCompiled ∧
      ∃ debouncer l₂, Puts l₁ ctx { o.state with debouncer } l₂ ∧
        ((load s ctx m).run l).state = match o.result with
          | .ok compiled => store i m (LoadedModule.ofCompiled compiled) l₂
          | .error _ => l₂ := by
  intro o
  have hname := (Instance.sameSetup_compile s m.path.normalize m.source i).name
  obtain ⟨hcompile, hcompiled⟩ := run_compile_of hfound halive
  rw [load, Action.run_ofExcept_bind hconfig, Action.run_bind_of_ok hensure, hstate]
  simp only [Outcome.after]
  rw [Action.run_get_bind, hmiss]
  dsimp only
  have hmapped : ((compile s ctx i m.path.normalize m.source).mapError
      (bailed i m.path.normalize)).run l₁ = ⟨o.result.mapError (bailed i m.path.normalize),
        l₁.put ctx o.state, ((compile s ctx i m.path.normalize m.source).run l₁).calls⟩ := by
    rw [Action.run_mapError, hcompile, hcompiled]
  have hput := puts_put l₁ ctx o.state
  cases hr : o.result with
  | error e =>
    have hfail : (((compile s ctx i m.path.normalize m.source).mapError
        (bailed i m.path.normalize)).run l₁).result = .error (bailed i m.path.normalize e) := by
      rw [hmapped, hr]
      rfl
    rw [Action.run_bind_of_error hfail, hmapped]
    exact ⟨rfl, o.state.debouncer, _, hput, rfl⟩
  | ok compiled =>
    have hok : (((compile s ctx i m.path.normalize m.source).mapError
        (bailed i m.path.normalize)).run l₁).result = .ok compiled := by
      rw [hmapped, hr]
      rfl
    have hself : (l₁.put ctx o.state).instance? ctx i.name = some o.state := hname ▸ hput.self
    have hrest := run_notify_bind (s := s) hself fun _ ↦ (do
      let loaded := LoadedModule.ofCompiled compiled
      Action.modify (store i m loaded)
      pure loaded : Act LoadedModule)
    rw [Action.run_bind_of_ok hok, hmapped]
    simp only [Outcome.after]
    rw [hrest]
    exact ⟨rfl, o.state.debouncer.notify s.now, _, hput.trans (puts_put _ ctx _) rfl, rfl⟩

end Found

end Loading

end Loader

/-- A request for a module, in the surroundings of that moment. -/
structure Load where
  surroundings : Surroundings
  context : BuildContext
  request : ModuleRequest

namespace Load

def file (x : Load) : Path := x.request.path.normalize

def run (x : Load) (l : Loader) : Outcome Loader LoadError LoadedModule :=
  (Loader.load x.surroundings x.context x.request).run l

def config? (x : Load) : Option LoaderConfig :=
  (LoaderConfig.resolve x.request.options x.request.query).toOption

def directory (x : Load) (config : LoaderConfig) : Path :=
  config.context.getD x.surroundings.workingDirectory

def setup (x : Load) (config : LoaderConfig) (options : Json.Object) : Setup :=
  Loader.setup x.surroundings config options x.request.options

def instance? (x : Load) (l : Loader) : Option Instance :=
  x.config?.bind fun config ↦
    ((Loader.ensure x.surroundings x.context config x.request.options).run l).result.toOption

def hit? (x : Load) (l : Loader) : Option CachedOutput :=
  (x.instance? l).bind fun i ↦ Loader.cached? i x.request l

def key? (x : Load) (l : Loader) : Option CacheKey :=
  (x.instance? l).map fun i ↦ Loader.cacheKey i x.request

/-- The conditions on a load: the world stays as it is while it runs, and project files are read as
from the disk `d`. A checker that is forked starts as a worker of this program, the setup and the
requests for the file are carried to it and its replies back, and the file has a name. -/
structure Runs (w : World) (home : WorkerHome) (d : Disk) (l : Loader) (x : Load) : Prop where
  world : x.surroundings.world = w
  workers : x.surroundings.workers home = w
  project : ∀ config, x.config? = some config →
    config.project l.disk (x.directory config) = config.project d (x.directory config)
  started : ∀ config project, x.config? = some config → config.forkChecker = true →
    l.instance? x.context config.instanceName = none →
    config.project d (x.directory config) = .ok project →
      (∃ connector, x.surroundings.launcher.connector config (x.directory config) = .ok connector ∧
        connector l.starts = .ok (.serving home {})) ∧
      Session.Carries w {} 1 (.init (x.setup config project.compilerOptions))
  asked : ∀ i, x.instance? l = some i → i.isForked = true → x.file.fileName?.isSome ∧
    i.Carries home w (.registerFile x.file x.request.source) ∧
    i.Carries home w (.emitFile x.file x.request.source)

end Load

namespace Loader

def Named (l : Loader) : Prop :=
  ∀ ctx name i, l.instance? ctx name = some i → i.name = name

def after (l : Loader) (xs : List Load) : Loader := xs.foldl (fun l x ↦ (x.run l).state) l

/-- The loads run one after the other, each on the loader that it finds. -/
def Runs (w : World) (home : WorkerHome) (d : Disk) : Loader → List Load → Prop
  | _, [] => True
  | l, x :: xs => x.Runs w home d l ∧ Runs w home d (x.run l).state xs

theorem after_append (l : Loader) (xs ys : List Load) :
    l.after (xs ++ ys) = (l.after xs).after ys := List.foldl_append ..

theorem runs_append {w : World} {home : WorkerHome} {d : Disk} {l : Loader} {xs ys : List Load} :
    Runs w home d l (xs ++ ys) ↔ Runs w home d l xs ∧ Runs w home d (l.after xs) ys := by
  induction xs generalizing l with
  | nil => simp [Runs, after]
  | cons x xs ih => rw [List.cons_append, Runs, Runs, ih, and_assoc]; rfl

end Loader

namespace Load

variable {w : World} {home : WorkerHome} {d : Disk} {l : Loader} {x : Load} {config : LoaderConfig}
  {i : Instance}

/-- What a new instance is made of: the compiler options of its project, and its
filter. -/
def parts? (x : Load) (d : Disk) (config : LoaderConfig) :
    Option (Json.Object × DiagnosticFilter) :=
  (config.project d (x.directory config)).toOption.bind fun project ↦
    (Loader.filterFor? (x.setup config project.compilerOptions)).map (project.compilerOptions, ·)

def caseFor (x : Load) (config : LoaderConfig) : PathCase :=
  config.case.getD x.surroundings.world.defaultCase

def session (x : Load) (config : LoaderConfig) (options : Json.Object)
    (filter : DiagnosticFilter) : Session.Started :=
  ⟨Compilation.make options (x.caseFor config), (x.setup config options).settings, filter⟩

theorem Runs.run_make (hx : x.Runs w home d l) (hconfig : x.config? = some config)
    (hnone : l.instance? x.context config.instanceName = none) :
    Loader.Same l ((Loader.make x.surroundings config x.request.options).run l).state ∧
      match x.parts? d config with
      | none => ∃ e, ((Loader.make x.surroundings config x.request.options).run l).result = .error e
      | some (options, filter) => ∃ checker, checker.isSome = config.forkChecker ∧
        ((Loader.make x.surroundings config x.request.options).run l).result =
          .ok (Loader.assemble x.surroundings config l.made options filter checker) ∧
        (Loader.assemble x.surroundings config l.made options filter checker).Presents home
          (x.session config options filter) 2 := by
  have hproject := hx.project config hconfig
  generalize hparts : x.parts? d config = parts
  rw [parts?, ← hproject] at hparts
  cases hp : config.project l.disk (x.directory config) with
  | error e =>
    obtain ⟨hresult, hstate⟩ :
        ((Loader.make x.surroundings config x.request.options).run l).result = .error (.config e) ∧
          ((Loader.make x.surroundings config x.request.options).run l).state = l :=
      Loader.run_make_of_error hp
    rw [hp] at hparts
    subst hparts
    rw [hstate]
    exact ⟨⟨fun _ _ ↦ rfl, rfl⟩, _, hresult⟩
  | ok project =>
    rw [hp, Except.toOption, Option.bind_some] at hparts
    cases hforked : config.forkChecker with
    | true =>
      obtain ⟨⟨connector, hconnector, hworker⟩, hcarries⟩ :=
        hx.started config project hconfig hforked hnone (hproject ▸ hp)
      have hworld : x.surroundings.workers home = x.surroundings.world :=
        hx.workers.trans hx.world.symm
      rw [← hx.world] at hcarries
      obtain ⟨hstate, hmake⟩ :=
        Loader.serves_make hworld hforked hconnector hworker hp hcarries
      rw [hstate]
      refine ⟨⟨fun _ _ ↦ rfl, rfl⟩, ?_⟩
      cases hfilter : Loader.filterFor? (x.setup config project.compilerOptions) with
      | none =>
        rw [hfilter] at hparts
        rw [setup] at hfilter
        rw [hfilter] at hmake
        subst hparts
        exact hmake
      | some filter =>
        rw [hfilter] at hparts
        rw [setup] at hfilter
        rw [hfilter] at hmake
        subst hparts
        obtain ⟨client, hresult, hserves⟩ := hmake
        exact ⟨some client, rfl, hresult, .remote hserves rfl⟩
    | false =>
      obtain ⟨hresult, hstate⟩ := Loader.run_make x.surroundings x.request.options hp
      rw [Loader.checkerFor_here hforked] at hresult hstate
      rw [hstate]
      refine ⟨⟨fun _ _ ↦ rfl, rfl⟩, ?_⟩
      cases hfilter : Loader.filterFor? (x.setup config project.compilerOptions) with
      | none =>
        rw [hfilter] at hparts
        rw [setup] at hfilter
        rw [hfilter] at hresult
        subst hparts
        exact ⟨_, hresult⟩
      | some filter =>
        rw [hfilter] at hparts
        rw [setup] at hfilter
        rw [hfilter] at hresult
        subst hparts
        exact ⟨none, rfl, hresult, .here rfl rfl rfl rfl rfl⟩

theorem run_ensure_eq (x : Load) (config : LoaderConfig) (l : Loader) :
    (Loader.ensure x.surroundings x.context config x.request.options).run l =
      (match l.instance? x.context config.instanceName with
        | some i => pure i
        | none => do
          let i ← Loader.make x.surroundings config x.request.options
          Action.modify fun l ↦ { l.put x.context i with made := l.made + 1 }
          pure i : Loader.Act Instance).run l := rfl

theorem Runs.run_ensure (hx : x.Runs w home d l) (hconfig : x.config? = some config) :
    let o := (Loader.ensure x.surroundings x.context config x.request.options).run l
    (∃ i, l.instance? x.context config.instanceName = some i ∧ o.result = .ok i ∧ o.state = l) ∨
    l.instance? x.context config.instanceName = none ∧
      match x.parts? d config with
      | none => (∃ e, o.result = .error e) ∧ Loader.Same l o.state
      | some (options, filter) => ∃ checker, checker.isSome = config.forkChecker ∧
        let i := Loader.assemble x.surroundings config l.made options filter checker
        o.result = .ok i ∧ i.Presents home (x.session config options filter) 2 ∧
          Loader.Puts l x.context i o.state := by
  intro o
  have hrun : o = _ := run_ensure_eq x config l
  cases hfound : l.instance? x.context config.instanceName with
  | some i =>
    rw [hfound] at hrun
    exact Or.inl ⟨i, rfl, congrArg Outcome.result hrun, congrArg Outcome.state hrun⟩
  | none =>
    rw [hfound] at hrun
    refine Or.inr ⟨rfl, ?_⟩
    obtain ⟨hsame, hmake⟩ := hx.run_make hconfig hfound
    cases hparts : x.parts? d config with
    | none =>
      rw [hparts] at hmake
      obtain ⟨e, he⟩ := hmake
      simp only at hrun
      rw [Action.run_bind_of_error he] at hrun
      rw [hrun]
      exact ⟨⟨e, rfl⟩, hsame⟩
    | some parts =>
      obtain ⟨options, filter⟩ := parts
      rw [hparts] at hmake
      obtain ⟨checker, hmode, hok, hpresents⟩ := hmake
      simp only at hrun
      rw [Action.run_bind_of_ok hok] at hrun
      refine ⟨checker, hmode, ?_⟩
      rw [hrun]
      refine ⟨rfl, hpresents, ?_⟩
      generalize ((Loader.make x.surroundings config x.request.options).run l).state = l₁ at hsame
      have hput := Loader.puts_put l₁ x.context
        (Loader.assemble x.surroundings config l.made options filter checker)
      exact ⟨hput.self, fun ctx name h ↦ (hput.others ctx name h).trans (hsame.instance? ctx name),
        hsame.disk⟩

theorem resolve_of_config? (h : x.config? = some config) :
    LoaderConfig.resolve x.request.options x.request.query = .ok config := by
  rw [config?] at h
  cases hr : LoaderConfig.resolve x.request.options x.request.query with
  | error e =>
    rw [hr] at h
    cases h
  | ok found =>
    rw [hr] at h
    exact congrArg Except.ok (Option.some.inj h)

theorem Runs.ensured (hx : x.Runs w home d l) (hl : l.Named) (hi : x.instance? l = some i) :
    ∃ config, LoaderConfig.resolve x.request.options x.request.query = .ok config ∧
      let o := (Loader.ensure x.surroundings x.context config x.request.options).run l
      o.result = .ok i ∧ Loader.Puts l x.context i o.state := by
  obtain ⟨config, hconfig, hok⟩ := Option.bind_eq_some_iff.1 hi
  refine ⟨config, resolve_of_config? hconfig, ?_⟩
  have hresult : ((Loader.ensure x.surroundings x.context config x.request.options).run l).result =
      .ok i := by
    generalize ((Loader.ensure x.surroundings x.context config x.request.options).run l).result = r
      at hok
    cases r with
    | error e => cases hok
    | ok j => exact congrArg Except.ok (Option.some.inj hok)
  refine ⟨hresult, ?_⟩
  rcases hx.run_ensure hconfig with ⟨j, hfound, hj, hstate⟩ | ⟨-, hmade⟩
  · obtain rfl := Except.ok.inj (hj.symm.trans hresult)
    rw [hstate]
    exact Loader.puts_of_found (hl _ _ _ hfound ▸ hfound)
  · split at hmade
    · obtain ⟨⟨e, he⟩, -⟩ := hmade
      rw [he] at hresult
      cases hresult
    · obtain ⟨checker, -, hj, -, hputs⟩ := hmade
      obtain rfl := Except.ok.inj (hj.symm.trans hresult)
      exact hputs

theorem Runs.failed (hx : x.Runs w home d l) (hi : x.instance? l = none) :
    (∃ e, (x.run l).result = .error e) ∧ Loader.Same l (x.run l).state := by
  cases hconfig : LoaderConfig.resolve x.request.options x.request.query with
  | error e =>
    rw [run, Loader.run_load_of_error hconfig]
    exact ⟨⟨_, rfl⟩, fun _ _ ↦ rfl, rfl⟩
  | ok config =>
    have hsome : x.config? = some config := by rw [config?, hconfig]; rfl
    rw [instance?, hsome, Option.bind_some] at hi
    rcases hx.run_ensure hsome with ⟨j, -, hj, -⟩ | ⟨-, hmade⟩
    · rw [hj] at hi
      cases hi
    · split at hmade
      · obtain ⟨⟨e, he⟩, hsame⟩ := hmade
        rw [run, Loader.load, Action.run_ofExcept_bind hconfig, Action.run_bind_of_error he]
        exact ⟨⟨e, rfl⟩, hsame⟩
      · obtain ⟨checker, -, hj, -⟩ := hmade
        rw [hj] at hi
        cases hi

section Found

variable (hx : x.Runs w home d l) (hl : l.Named) (hi : x.instance? l = some i)

section Presented

variable {t : Session.Started} {n : Nat} (ht : i.Presents home t n)

include hx hl hi ht

theorem Runs.registers {hit : CachedOutput} (hhit : x.hit? l = some hit) :
    let o := (Compilation.register w x.file x.request.source).run t.compilation
    (∃ f, (x.run l).result = (o.result.map (LoadedModule.ofCached hit)).mapError f) ∧
      ∃ i', i.SameSetup i' ∧ i'.Presents home { t with compilation := o.state } (n + 1) ∧
        Loader.Puts l x.context i' (x.run l).state := by
  intro o
  obtain ⟨config, hconfig, hensure, hputs⟩ := hx.ensured hl hi
  rw [hit?, hi, Option.bind_some, Loader.cached?, ← hputs.disk] at hhit
  obtain ⟨hresult, debouncer, hnext⟩ := Loader.run_load_served hconfig hensure rfl hputs.self hhit
  have hsame := Instance.sameSetup_register x.surroundings x.request.path.normalize
    x.request.source i
  have hcarries : i.Carries home x.surroundings.world (.registerFile x.file x.request.source) := by
    intro t n hserves
    rw [hx.world]
    exact (hx.asked i hi hserves.isForked).2.1 t n hserves
  obtain ⟨⟨f, hf⟩, hpresents⟩ := ht.register (hx.workers.trans hx.world.symm) hcarries
  rw [hx.world] at hf hpresents
  have hf : ((Instance.register x.surroundings x.request.path.normalize x.request.source).run
      i).result = o.result.mapError f := hf
  refine ⟨⟨f, ?_⟩, { ((Instance.register x.surroundings x.request.path.normalize
    x.request.source).run i).state with debouncer },
    ⟨hsame.config, hsame.forked, hsame.identifier, hsame.cache⟩,
    hpresents.withDebouncer debouncer, hputs.trans hnext hsame.name⟩
  rw [run, hresult, hf]
  cases o.result <;> rfl

theorem Runs.compiles (hmiss : x.hit? l = none) :
    let o := (Compilation.compile w x.file x.request.source i.config.transpileOnly).run
      t.compilation
    (∃ f, (x.run l).result = (o.result.map LoadedModule.ofCompiled).mapError f) ∧
      ∃ i', i.SameSetup i' ∧ i'.Presents home { t with compilation := o.state } (n + 1) ∧
        ∃ l', Loader.Puts l x.context i' l' ∧
        (∀ e, (x.run l).result = .error e → (x.run l).state = l') ∧
        ∀ m, (x.run l).result = .ok m → (x.run l).state = Loader.store i x.request m l' := by
  intro o
  obtain ⟨config, hconfig, hensure, hputs⟩ := hx.ensured hl hi
  rw [hit?, hi, Option.bind_some, Loader.cached?, ← hputs.disk] at hmiss
  have hsame := Instance.sameSetup_compile x.surroundings x.request.path.normalize
    x.request.source i
  have hcarries : i.Carries home x.surroundings.world (.emitFile x.file x.request.source) := by
    intro t n hserves
    rw [hx.world]
    exact (hx.asked i hi hserves.isForked).2.2 t n hserves
  obtain ⟨⟨f, hf, halive⟩, hpresents⟩ := ht.compile (hx.workers.trans hx.world.symm)
    (fun hforked ↦ (hx.asked i hi hforked).1) hcarries
  rw [hx.world] at hf hpresents
  generalize hcompiled : (Instance.compile x.surroundings x.file x.request.source).run i = compiled
    at hf hpresents
  have hcompiled : (Instance.compile x.surroundings x.request.path.normalize
    x.request.source).run i = compiled := hcompiled
  have hgone : ((Instance.compile x.surroundings x.request.path.normalize x.request.source).run
      i).result ≠ .error (.checker .exited) := by
    rw [hcompiled]
    intro he
    rw [he] at hf
    cases ho : o.result with
    | ok m =>
      rw [ho] at hf
      cases hf
    | error e =>
      rw [ho] at hf
      exact halive e (Except.error.inj hf).symm
  obtain ⟨hresult, debouncer, l', hnext, hstate⟩ :=
    Loader.run_load_compiled hconfig hensure rfl hputs.self hmiss hgone
  rw [hcompiled] at hresult hstate hnext hsame
  refine ⟨⟨fun e ↦ Loader.bailed i x.file (f e), ?_⟩, { compiled.state with debouncer },
    ⟨hsame.config, hsame.forked, hsame.identifier, hsame.cache⟩,
    hpresents.withDebouncer debouncer, l', hputs.trans hnext hsame.name, ?_, ?_⟩
  · rw [run, hresult]
    cases hr : compiled.result <;> cases ho : o.result <;> rw [hr, ho] at hf
    · exact congrArg (Except.error ∘ Loader.bailed i x.file) (Except.error.inj hf)
    · cases hf
    · cases hf
    · exact congrArg Except.ok (Except.ok.inj hf)
  · intro e he
    rw [run, hresult] at he
    rw [run, hstate]
    cases hr : compiled.result with
    | ok m =>
      rw [hr] at he
      cases he
    | error e => rfl
  · intro m hm
    rw [run, hresult] at hm
    rw [run, hstate]
    cases hr : compiled.result with
    | ok m =>
      rw [hr] at hm
      obtain rfl := Except.ok.inj hm
      rfl
    | error e =>
      rw [hr] at hm
      cases hm

end Presented

variable {c : Compilation} (hc : i.Holds home c)

include hx hl hi hc

theorem Runs.served {hit : CachedOutput} (hhit : x.hit? l = some hit) :
    let o := (Compilation.register w x.file x.request.source).run c
    (∃ f, (x.run l).result = (o.result.map (LoadedModule.ofCached hit)).mapError f) ∧
      ∃ i', i.SameSetup i' ∧ i'.Holds home o.state ∧
        Loader.Puts l x.context i' (x.run l).state := by
  intro o
  obtain ⟨t, n, rfl, ht⟩ := hc.presents
  obtain ⟨hresult, i', hsame, hnext, hputs⟩ := hx.registers hl hi ht hhit
  exact ⟨hresult, i', hsame, hnext.holds, hputs⟩

theorem Runs.compiled (hmiss : x.hit? l = none) :
    let o := (Compilation.compile w x.file x.request.source i.config.transpileOnly).run c
    (∃ f, (x.run l).result = (o.result.map LoadedModule.ofCompiled).mapError f) ∧
      ∃ i', i.SameSetup i' ∧ i'.Holds home o.state ∧ ∃ l', Loader.Puts l x.context i' l' ∧
        (∀ e, (x.run l).result = .error e → (x.run l).state = l') ∧
        ∀ m, (x.run l).result = .ok m → (x.run l).state = Loader.store i x.request m l' := by
  intro o
  obtain ⟨t, n, rfl, ht⟩ := hc.presents
  obtain ⟨hresult, i', hsame, hnext, hstate⟩ := hx.compiles hl hi ht hmiss
  exact ⟨hresult, i', hsame, hnext.holds, hstate⟩

end Found

end Load

end TypedLoader
