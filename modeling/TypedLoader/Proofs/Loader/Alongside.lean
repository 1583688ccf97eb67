import TypedLoader.Proofs.Loader.Rebuilds

namespace TypedLoader

namespace Compilation

variable {s : Analysis.Scene} {known : FileStore} {stale changed : List Path}
  {ms : List (Path × String)} {c c' d d' : Compilation} {forked forked' : Bool}

theorem Knows.withWorld (h : c.Knows s known stale) (w : World) :
    c.Knows { s with world := w } known stale := h.follows w _

theorem Passed.steps (h : Passed s.world forked changed ms c c') : ∃ step, TakesOver s step ∧
    Loads s.world ms (changed.foldl step c) c' := by
  obtain ⟨c₁, htook, hloads⟩ := h
  cases htook with
  | refreshed hd => exact ⟨_, takesOver_refresh s, .built hd hloads⟩
  | mirrored hd => exact ⟨_, takesOver_mirror s, .built hd hloads⟩

variable (s stale) in
/-- Both compilations store the same files, and have analysed those that are not stale. -/
def KnowAlike (c c' : Compilation) : Prop := c.Knows s c.files stale ∧ c'.Knows s c.files stale

theorem Knows.passed_alike (hr : s.Reloads known stale changed ms)
    (hnames : ∀ p ∈ stale, s.Names p) (hc : c.Knows s known stale) (hd : d.Knows s known stale)
    (hpc : Passed s.world forked changed ms c c') (hpd : Passed s.world forked' changed ms d d') :
    KnowAlike s (Analysis.staleAfter stale changed ms) c' d' := by
  obtain ⟨step, hstep, hlc⟩ := hpc.steps
  obtain ⟨step', hstep', hld⟩ := hpd.steps
  exact hc.pass_alike hr hnames hd hstep hstep' hlc hld

end Compilation

structure Load.Forked (x x' : Load) : Prop where
  surroundings : x'.surroundings = x.surroundings
  context : x'.context = x.context
  path : x'.request.path = x.request.path
  source : x'.request.source = x.request.source
  here : ∀ config, x.config? = some config → config.forkChecker = false
  config : x'.config? = x.config?.map fun config ↦ { config with forkChecker := true }

structure Pass.Forked (p p' : Pass) : Prop where
  surroundings : p'.surroundings = p.surroundings
  context : p'.context = p.context
  changed : p'.changed = p.changed
  loads : List.Forall₂ Load.Forked p.loads p'.loads

namespace Load.Forked

variable {x x' : Load} {d : Disk} {ctx : BuildContext} {name : String}

theorem forked (h : x.Forked x') (config : LoaderConfig) (hconfig : x'.config? = some config) :
    config.forkChecker = true := by
  rw [h.config] at hconfig
  obtain ⟨config, -, rfl⟩ := Option.map_eq_some_iff.1 hconfig
  rfl

theorem asks (h : x.Forked x') : x'.Asks ctx name ↔ x.Asks ctx name := by
  rw [Load.Asks, Load.Asks, h.context, h.config, Option.map_map]
  rfl

theorem opens?_eq (h : x.Forked x') (d : Disk) (ctx : BuildContext) (name : String) :
    x'.opens? d ctx name = x.opens? d ctx name := by
  have hparts (config : LoaderConfig) :
      x'.parts? d { config with forkChecker := true } = x.parts? d config := by
    rw [Load.parts?, Load.parts?, Load.directory, Load.directory, h.surroundings]
    have hproject : LoaderConfig.project { config with forkChecker := true } = config.project := rfl
    have hfilter (options : Json.Object) :
        Loader.filterFor? (x'.setup { config with forkChecker := true } options) =
          Loader.filterFor? (x.setup config options) := by
      rw [Load.setup, Load.setup, h.surroundings]
      rfl
    simp only [hproject, hfilter]
  have hsession (config : LoaderConfig) :
      x'.session { config with forkChecker := true } = x.session config := by
    funext options filter
    rw [Load.session, Load.session, Load.caseFor, Load.caseFor, Load.setup, Load.setup,
      h.surroundings]
    rfl
  rw [Load.opens?, Load.opens?, h.config]
  simp only [h.asks]
  cases x.config? with
  | none => rfl
  | some config => simp only [Option.map_some, Option.bind_some, hparts, hsession]

end Load.Forked

namespace Pass.Forked

variable {p p' : Pass}

theorem here (h : p.Forked p') :
    ∀ x ∈ p.loads, ∀ config, x.config? = some config → config.forkChecker = false :=
  ((List.forall₂_and_left _ _).1 (h.loads.imp fun _ _ hx ↦ ⟨hx.here, hx⟩)).1

theorem there (h : p.Forked p') :
    ∀ x ∈ p'.loads, ∀ config, x.config? = some config → config.forkChecker = true := by
  have hflip : List.Forall₂ (fun x' x ↦ x.Forked x') p'.loads p.loads := h.loads.flip
  exact ((List.forall₂_and_left _ _).1 (hflip.imp fun _ _ hx ↦ ⟨hx.forked, hx⟩)).1

end Pass.Forked

namespace Loader

variable {d : Disk} {ctx : BuildContext} {name : String} {xs xs' : List Load}

theorem opening?_eq (h : List.Forall₂ Load.Forked xs xs') :
    opening? d ctx name xs' = opening? d ctx name xs := by
  induction h with
  | nil => rfl
  | cons hx _ ih => rw [opening?_cons, opening?_cons, hx.opens?_eq, ih]

theorem modules_eq (h : List.Forall₂ Load.Forked xs xs') (opened : Bool) :
    modules d ctx name opened xs' = modules d ctx name opened xs := by
  induction h generalizing opened with
  | nil => rfl
  | @cons x x' _ _ hx _ ih =>
    have hfile : x'.file = x.file := by rw [Load.file, Load.file, hx.path]
    rw [modules, modules]
    simp only [hx.opens?_eq, hx.asks, hfile, hx.source, ih]

theorem opening?_compilation {t : Session.Started} (h : opening? d ctx name xs = some t) :
    ∃ options case, t.compilation = Compilation.make options case := by
  obtain ⟨x, -, hx⟩ := List.exists_of_findSome?_eq_some h
  rw [Load.opens?] at hx
  split at hx
  · obtain ⟨config, -, hparts⟩ := Option.bind_eq_some_iff.1 hx
    obtain ⟨parts, -, rfl⟩ := Option.map_eq_some_iff.1 hparts
    exact ⟨_, _, rfl⟩
  · cases hx

/-- The passes run one after the other, each on the loader that it finds. -/
def Builds (home : WorkerHome) (build : Host → Except String Program) (d : Disk) :
    Loader → List Pass → Prop
  | _, [] => True
  | l, p :: ps => p.Runs home build d l ∧ Builds home build d (p.run l) ps

def through (l : Loader) (ps : List Pass) : Loader := ps.foldl (fun l p ↦ p.run l) l

/-- The files that the instance of this place stores, none before it is made. -/
def filesAt (l : Loader) (ctx : BuildContext) (name : String) (case : PathCase) : FileStore :=
  ((l.instance? ctx name).map fun i ↦ i.compilation.files).getD { case }

/-- In each pass the instance of this place loads the files that have changed, unless
their texts lead to nothing new. -/
def Reloads (s : Analysis.Scene) (d : Disk) (ctx : BuildContext) (name : String) :
    List Path → Loader → List Pass → Prop
  | _, _, [] => True
  | stale, l, p :: ps =>
    let opened := (l.instance? ctx name).isSome
    let changed := p.changedFor ctx opened
    let loads := modules d ctx name opened p.loads
    (((p.run l).instance? ctx name).isSome → Analysis.Scene.Reloads
      { s with world := p.surroundings.world } (l.filesAt ctx name s.case) stale changed loads) ∧
    Reloads s d ctx name (Analysis.staleAfter stale changed loads) (p.run l) ps

section Alongside

variable {home : WorkerHome} {build : Host → Except String Program} {s : Analysis.Scene}
  {stale : List Path} {l l' : Loader} {o o' : Option Session.Started} {p p' : Pass}
  {passes passes' : List Pass} {forked : Bool}

theorem Shows.isSome (h : l.Shows home build forked ctx name o) :
    (l.instance? ctx name).isSome = o.isSome := by
  cases h with
  | missing hnone => rw [hnone]; rfl
  | there hfound => rw [hfound]; rfl

theorem Shows.filesAt_some {t : Session.Started}
    (h : l.Shows home build false ctx name (some t)) (case : PathCase) :
    l.filesAt ctx name case = t.compilation.files := by
  cases h with
  | there hfound hmode ht =>
    cases ht with
    | here alone own => rw [filesAt, hfound, Option.map_some, Option.getD_some, own]
    | remote serves =>
      rw [serves.isForked] at hmode
      cases hmode

variable (home build s stale ctx name l l' o o') in
/-- Both loaders hold instances that know the same files at this place, in place and with
checkers. -/
structure Alongside : Prop where
  left : l.Held home build false
  right : l'.Held home build true
  here : l.Shows home build false ctx name o
  remote : l'.Shows home build true ctx name o'
  alike : Session.Turns (Compilation.KnowAlike s stale) o o'
  missing : o = none → stale = []
  names : ∀ q ∈ stale, s.Names q

theorem alongside_empty (s : Analysis.Scene) (d : Disk) (ctx : BuildContext) (name : String) :
    Alongside ctx name home build s [] { disk := d } { disk := d } none none := by
  have hheld (forked : Bool) : Held home build forked { disk := d } :=
    ⟨(beside_empty s.world home d).left,
      fun ctx name ↦ ⟨none, .missing (instance?_empty d ctx name)⟩⟩
  exact ⟨hheld false, hheld true, .missing (instance?_empty d ctx name),
    .missing (instance?_empty d ctx name), .missing, fun _ ↦ rfl,
    fun q hq ↦ absurd hq List.not_mem_nil⟩

theorem Alongside.begin (h : Alongside ctx name home build s stale l l' o o') {xs : List Load}
    (hopening : o = none → ∀ t, opening? d ctx name xs = some t →
      t.compilation = Compilation.make s.options s.case) :
    let known := l.filesAt ctx name s.case
    Session.Turns (fun c c' ↦ c.Knows s known stale ∧ c'.Knows s known stale)
      (o.or (opening? d ctx name xs)) (o'.or (opening? d ctx name xs)) := by
  intro known
  obtain ⟨-, -, hs, -, halike, hmissing, -⟩ := h
  cases halike with
  | there hknow =>
    have hfiles := hs.filesAt_some s.case
    simp only [Option.some_or, known, hfiles]
    exact .there hknow
  | missing =>
    rw [Option.none_or]
    cases ht : opening? d ctx name xs with
    | none => exact .missing
    | some t =>
      have hfiles : known = { case := s.case } := by
        cases hs with
        | missing hnone =>
          simp only [known, filesAt, hnone]
          rfl
      have hknows : t.compilation.Knows s known stale := by
        rw [hopening rfl t ht, hfiles, hmissing rfl]
        exact Compilation.knows_make s
      exact .there (t := t) ⟨hknows, hknows⟩

theorem Alongside.pass (h : Alongside ctx name home build s stale l l' o o')
    (hforked : p.Forked p') (hp : p.Runs home build d l) (hp' : p'.Runs home build d l')
    (hopening : o = none → ∀ t, opening? d ctx name p.loads = some t →
      t.compilation = Compilation.make s.options s.case)
    (hreloads : ((p.run l).instance? ctx name).isSome → Analysis.Scene.Reloads
      { s with world := p.surroundings.world } (l.filesAt ctx name s.case) stale
      (p.changedFor ctx o.isSome) (modules d ctx name o.isSome p.loads)) :
    ∃ o₁ o₁', o₁.isSome = (o.or (opening? d ctx name p.loads)).isSome ∧
      Alongside ctx name home build s (Analysis.staleAfter stale (p.changedFor ctx o.isSome)
        (modules d ctx name o.isSome p.loads)) (p.run l) (p'.run l') o₁ o₁' := by
  have hbegin := h.begin hopening
  obtain ⟨hl, hl', hs, hs', halike, hmissing, hnames⟩ := h
  have hchanged : p'.changedFor ctx o'.isSome = p.changedFor ctx o.isSome := by
    rw [Pass.changedFor, Pass.changedFor, hforked.context, hforked.changed, halike.isSome]
  obtain ⟨hnext, o₁, hs₁, hturn⟩ := hl.shows_pass hp hs hforked.here
  obtain ⟨hnext', o₁', hs₁', hturn'⟩ := hl'.shows_pass hp' hs' hforked.there
  rw [hforked.surroundings, hchanged, halike.isSome, modules_eq hforked.loads,
    opening?_eq hforked.loads] at hturn'
  rw [hs₁.isSome] at hreloads
  -- an instance that has not been made yet is told of no file, so none waits for it
  have hmissing' : o₁ = none → Analysis.staleAfter stale (p.changedFor ctx o.isSome)
      (modules d ctx name o.isSome p.loads) = [] := by
    rintro rfl
    have hnone := Option.isSome_eq_false_iff.1 hturn.isSome.symm
    obtain ⟨rfl, -⟩ := Option.or_eq_none_iff.1 (Option.isNone_iff_eq_none.1 hnone)
    rw [hmissing rfl, Option.isSome_none, p.changedFor_false]
    rfl
  refine ⟨o₁, o₁', hturn.isSome, hnext, hnext', hs₁, hs₁', ?_, hmissing', ?_⟩
  · generalize o.or (opening? d ctx name p.loads) = begun at hbegin hturn
    generalize o'.or (opening? d ctx name p.loads) = begun' at hbegin hturn'
    cases o₁ with
    | none =>
      cases hturn
      cases hbegin
      cases hturn'
      exact .missing
    | some t =>
      -- what is known does not depend on the world, which is another in each pass
      refine hbegin.square hturn hturn' fun c c' c₁ c₁' hknow hc hc' ↦ ?_
      obtain ⟨hleft, hright⟩ := Compilation.Knows.passed_alike (hreloads rfl) hnames
        (hknow.1.withWorld p.surroundings.world) (hknow.2.withWorld p.surroundings.world) hc hc'
      exact ⟨hleft.withWorld s.world, hright.withWorld s.world⟩
  · intro q hq
    cases o₁ with
    | none =>
      rw [hmissing' rfl] at hq
      exact absurd hq List.not_mem_nil
    | some t =>
      obtain ⟨hq, -⟩ := List.mem_filter.1 hq
      exact (List.mem_append.1 hq).elim (hnames q) ((hreloads rfl).names q)

theorem Alongside.through (h : Alongside ctx name home build s stale l l' o o')
    (hforked : List.Forall₂ Pass.Forked passes passes') (hruns : Builds home build d l passes)
    (hruns' : Builds home build d l' passes')
    (hopening : o = none → ∀ t, opening? d ctx name (passes.flatMap Pass.loads) = some t →
      t.compilation = Compilation.make s.options s.case)
    (hreloads : Reloads s d ctx name stale l passes) :
    ∃ o₁ o₁' stale', o₁.isSome = (o.or (opening? d ctx name (passes.flatMap Pass.loads))).isSome ∧
      Alongside ctx name home build s stale' (l.through passes) (l'.through passes') o₁ o₁' := by
  induction hforked generalizing stale l l' o o' with
  | nil =>
    refine ⟨o, o', stale, ?_, h⟩
    rw [List.flatMap_nil, opening?, List.findSome?_nil, Option.or_none]
  | @cons p p' ps ps' hp _ ih =>
    obtain ⟨hpass, hrest⟩ := hruns
    obtain ⟨hpass', hrest'⟩ := hruns'
    obtain ⟨hr, hreloads⟩ := hreloads
    -- the instance is made in the first pass that asks for it
    have hsplit : opening? d ctx name ((p :: ps).flatMap Pass.loads) =
        (opening? d ctx name p.loads).or (opening? d ctx name (ps.flatMap Pass.loads)) := by
      rw [List.flatMap_cons, opening?, List.findSome?_append]
      rfl
    rw [hsplit] at hopening ⊢
    rw [h.here.isSome] at hr hreloads
    have hfirst : o = none → ∀ t, opening? d ctx name p.loads = some t →
        t.compilation = Compilation.make s.options s.case :=
      fun ho t ht ↦ hopening ho t (by rw [ht, Option.some_or])
    obtain ⟨o₁, o₁', hsome, hnext⟩ := h.pass hp hpass hpass' hfirst hr
    have hothers : o₁ = none → ∀ t, opening? d ctx name (ps.flatMap Pass.loads) = some t →
        t.compilation = Compilation.make s.options s.case := by
      rintro rfl t ht
      have hnone := Option.isNone_iff_eq_none.1 (Option.isSome_eq_false_iff.1 hsome.symm)
      obtain ⟨ho, hnone⟩ := Option.or_eq_none_iff.1 hnone
      exact hopening ho t (by rw [hnone, Option.none_or, ht])
    obtain ⟨o₂, o₂', stale', hsome', hend⟩ := ih hnext hrest hrest' hothers hreloads
    refine ⟨o₂, o₂', stale', ?_, hend⟩
    rw [hsome', ← Option.or_assoc, Option.isSome_or, hsome, ← Option.isSome_or]

end Alongside

/-- Two builds with the same passes, one of them with checkers, end with instances that
report the same files and the same diagnostics. Files that change between passes are
loaded again in the next one, unless their texts lead to nothing new. -/
theorem reports_alike {s : Surroundings} {home : WorkerHome} {build : Host → Except String Program}
    {up : Path → Prop} {passes passes' : List Pass} {t : Session.Started}
    (hforked : List.Forall₂ Pass.Forked passes passes')
    (hruns : Builds home build d { disk := d } passes)
    (hruns' : Builds home build d { disk := d } passes')
    (hopening : opening? d ctx name (passes.flatMap Pass.loads) = some t)
    (hreloads : Reloads ⟨s.world, t.compilation.options, t.compilation.files.case, up⟩ d ctx name []
      { disk := d } passes)
    (hworld : s.workers home = s.world) (hbuild : s.world.compiler.build = build) :
    ∃ here forked, (through { disk := d } passes).instance? ctx name = some here ∧
      (through { disk := d } passes').instance? ctx name = some forked ∧
      here.isForked = false ∧ forked.isForked = true ∧
      (forked.Carries home s.world .files →
        (Instance.Command.knownFiles.run s forked).1 =
          (Instance.Command.knownFiles.run s here).1) ∧
      (forked.Carries home s.world .diagnostics →
        (Instance.Command.diagnostics.run s here).1.Fits →
        (Instance.Command.diagnostics.run s forked).1 =
          (Instance.Command.diagnostics.run s here).1) := by
  generalize hscene : Analysis.Scene.mk s.world t.compilation.options t.compilation.files.case up =
    scene at hreloads
  have hbegun : ∀ t, opening? d ctx name (passes.flatMap Pass.loads) = some t →
      t.compilation = Compilation.make scene.options scene.case := by
    intro t' ht'
    obtain rfl := Option.some.inj (hopening.symm.trans ht')
    obtain ⟨options, case, hmake⟩ := opening?_compilation hopening
    rw [← hscene, hmake]
    rfl
  obtain ⟨o, o', stale, hsome, hend⟩ := (alongside_empty scene d ctx name).through hforked hruns
    hruns' (fun _ ↦ hbegun) hreloads
  rw [Option.none_or, hopening] at hsome
  obtain ⟨-, -, hhere, hremote, halike, -, -⟩ := hend
  cases halike with
  | missing => cases hsome
  | @there t c hknow =>
    cases hhere with
    | @there here _ _ hfound hmode ht ho =>
      cases hremote with
      | @there forked _ _ hfound' hmode' ht' ho' =>
        have hhost : c.host = t.compilation.host := hknow.1.host_eq hknow.2
        have hcarried (r : Request) : here.Carries home s.world r := Instance.carries_of_alone hmode
        refine ⟨here, forked, hfound, hfound', hmode, hmode', fun hcarries ↦ ?_,
          fun hcarries hfits ↦ ?_⟩
        · rw [ht'.knownFiles hworld hcarries, ht.knownFiles hworld (hcarried .files)]
          exact congrArg (fun h : Host ↦ Instance.Answer.files h.fileNames) hhost
        -- both programs are fresh, so they report as a program built from these files does
        · let reports := Compilation.reports s.world t.filter t.settings.context
          have hresult : (reports.run c).result = (reports.run t.compilation).result := by
            rw [ho'.fresh.result_reports hbuild, ho.fresh.result_reports hbuild, hhost]
          have hleft := ht.diagnostics hworld (hcarried .diagnostics) fun h ↦ by
            rw [hmode] at h
            cases h
          rw [hleft] at hfits ⊢
          rw [ht'.diagnostics hworld hcarries fun _ l hl ↦ by
            rw [hresult] at hl
            rw [hl] at hfits
            exact hfits]
          exact congrArg (fun r ↦ Instance.Answer.ofResult .reports (r.mapError .checker)) hresult

end Loader

def Program.silent : Program where
  sourceFiles := []
  contains _ := false
  emit _ := .ok {}
  optionsDiagnostics := []
  globalDiagnostics := []
  syntacticDiagnostics _ := []
  semanticDiagnostics _ := []

namespace OneFile

def world (text : String) : World where
  compiler := { World.plain.compiler with build := fun _ ↦ .ok .silent }
  files := (⟨[(⟨"/a.ts"⟩, text)]⟩ : MemoryFiles).toFileSystem

def surroundings (text : String) : Surroundings :=
  { Surroundings.plain with world := world text, workers := fun _ ↦ world text }

def config (forkChecker : Bool) : LoaderConfig :=
  { Load.plainConfig false with forkChecker }

def load (forkChecker : Bool) (text : String) : Load where
  surroundings := surroundings text
  context := .top 0 "main"
  request := {
    path := ⟨"/a.ts"⟩
    source := text
    query := ""
    options := .obj [("forkChecker", .bool forkChecker), ("transpileOnly", .bool true)] }

def pass (forkChecker : Bool) (text : String) (changed : List Path) : Pass where
  surroundings := surroundings text
  context := .top 0 "main"
  changed := changed
  loads := [load forkChecker text]

variable {forkChecker : Bool} {text : String} {l : Loader} {t : Session.Started} {i : Instance}
  {n : Nat} {files : FileStore}

theorem config?_load (forkChecker : Bool) (text : String) :
    (load forkChecker text).config? = some (config forkChecker) := by
  cases forkChecker <;> rfl

theorem normalize_file : (⟨"/a.ts"⟩ : Path).normalize = ⟨"/a.ts"⟩ := by decide +kernel

theorem read_file (text : String) : (world text).files.read ⟨"/a.ts"⟩ = .ok text := by
  have hfind : (⟨[(⟨"/a.ts"⟩, text)]⟩ : MemoryFiles).find? ⟨"/a.ts"⟩ = some text := by
    rw [MemoryFiles.find?, normalize_file]
    rfl
  simp only [world, MemoryFiles.toFileSystem, hfind]

theorem project_config (forkChecker : Bool) :
    (config forkChecker).project {} ⟨"/"⟩ = .ok ⟨[], none⟩ :=
  Load.project_plain (by rw [Load.Bare]; decide +kernel) false

theorem scene_reloads {options : Json.Object} {case : PathCase} {known : FileStore}
    {stale changed : List Path} {loads : List (Path × String)}
    (hchanged : ∀ p ∈ changed, p = ⟨"/a.ts"⟩) (hloads : ∀ m ∈ loads, m = (⟨"/a.ts"⟩, text)) :
    Analysis.Scene.Reloads ⟨world text, options, case, (· = ⟨"/a.ts"⟩)⟩ known stale changed
      loads := by
  have hwelcomes (p : Path) (text' : String) :
      Analysis.Scene.Welcomes ⟨world text, options, case, (· = ⟨"/a.ts"⟩)⟩ p text' := by
    refine ⟨fun c hc ↦ absurd hc List.not_mem_nil, fun q hq ↦ ?_⟩
    cases hq with
    | module cited => exact absurd cited List.not_mem_nil
    | path cited => exact absurd cited List.not_mem_nil
    | types cited => exact absurd cited List.not_mem_nil
  have hquiet (p : Path) (text' : String) : Analysis.Scene.Quiet
      ⟨world text, options, case, (· = ⟨"/a.ts"⟩)⟩ known changed p text' :=
    ⟨⟨hwelcomes p text', fun e he ↦ absurd he List.not_mem_nil⟩,
      fun e he ↦ absurd he List.not_mem_nil⟩
  refine ⟨⟨?_, ?_, fun p text' _ _ ↦ hwelcomes p text', ?_⟩, fun p hp ↦ Or.inl (hchanged p hp), ?_,
    fun p _ source _ ↦ hquiet p source.text, fun p _ source text' _ _ ↦ Or.inr (hquiet p text')⟩
  · rintro p rfl
    exact normalize_file
  · rintro p q rfl rfl _
    rfl
  · rintro p q rfl hrefers
    obtain ⟨e, he, -⟩ := (Analysis.refers_iff (read_file text)).1 hrefers
    exact absurd he List.not_mem_nil
  · intro m hm
    obtain rfl := hloads m hm
    refine ⟨rfl, ?_⟩
    dsimp only
    exact read_file text

/-- The session has stored these files, and their texts refer to nothing. -/
structure Steady (files : FileStore) (t : Session.Started) : Prop where
  unlinked : t.compilation.Unlinked
  stored : t.compilation.files = files
  orderly : t.compilation.Orderly fun _ ↦ .ok .silent
  mode : t.settings.transpileOnly = true

def storing (files : FileStore) (text : String) : FileStore :=
  (files.update ⟨"/a.ts"⟩ text true).2

namespace Steady

variable {c : Compilation}

theorem of_dropProgram (h : Steady files t) {c' : Compilation} {files' : FileStore}
    (hd : c.dropProgram = c'.dropProgram) (ho : c.Orderly fun _ ↦ .ok .silent)
    (hu : c'.deps.edges = ∅) (hf : c'.files = files') :
    Steady files' { t with compilation := c } := by
  obtain ⟨-, hfiles, hdeps, -, -⟩ := Compilation.mk.inj hd
  exact ⟨⟨ho.tidy, hdeps ▸ hu⟩, hfiles.trans hf, ho, h.mode⟩

theorem took (h : Steady files t)
    (hc : Compilation.Took (world text) ⟨"/a.ts"⟩ text t.compilation c) :
    Steady (storing files text) { t with compilation := c } := by
  have hscan : (world text).compiler.scan text = {} := rfl
  obtain ⟨-, hunlinked, hfiles, -⟩ := h.unlinked.sync (p := ⟨"/a.ts"⟩) hscan
  refine h.of_dropProgram hc.same hc.orderly hunlinked.edges (hfiles.trans ?_)
  rw [(Compilation.received_eq _ _ _).1, h.stored]
  rfl

theorem tookOver (h : Steady files t) (hknown : files.has ⟨"/a.ts"⟩ = true)
    (hc : Compilation.TookOver (world text) [⟨"/a.ts"⟩] t.compilation c true)
    (ho : c.Orderly fun _ ↦ .ok .silent) :
    Steady (storing files text) { t with compilation := c } := by
  cases hc with
  | mirrored hd =>
    have hhas : ¬(true && !t.compilation.has ⟨"/a.ts"⟩) = true := by
      rw [Compilation.has, h.stored, hknown]
      exact Bool.false_ne_true
    have hmirror : (t.compilation.mirror (world text) ⟨"/a.ts"⟩).dropProgram =
        (t.compilation.received ⟨"/a.ts"⟩ text).dropProgram := by
      rw [Compilation.mirror, read_file]
      dsimp only
      rw [Session.updateFile_eq, if_neg hhas]
      split <;> rfl
    obtain ⟨hfiles, hdeps, -⟩ := Compilation.received_eq t.compilation ⟨"/a.ts"⟩ text
    refine h.of_dropProgram (hd.trans hmirror) ho (hdeps ▸ h.unlinked.edges) (hfiles.trans ?_)
    rw [h.stored]
    rfl

end Steady

theorem result_reports {c : Compilation} (h : c.Orderly fun _ ↦ .ok .silent) (text : String)
    (f : DiagnosticFilter) (context : Path) :
    ((Compilation.reports (world text) f context).run c).result = .ok [] := by
  rw [h.fresh.result_reports rfl]
  rfl

theorem carries_told (t : Session.Started) (text : String) (hn : n < UInt64.size)
    (hsent : 4 * ((Request.updateFile ⟨"/a.ts"⟩ text true).envelope n).toJson.chars.length ≤
      Frame.maxBytes)
    (hanswered : 4 * (Response.ok n .null).toJson.chars.length ≤ Frame.maxBytes) :
    Session.CarriesAll (world text) ⟨some t⟩ n [.told (world text) ⟨"/a.ts"⟩] := by
  have htold : Request.told (world text) ⟨"/a.ts"⟩ = .updateFile ⟨"/a.ts"⟩ text true := by
    rw [Request.told, read_file]
  refine ⟨?_, trivial⟩
  have hresult := (Session.run_handle_told (world text) ⟨"/a.ts"⟩ t).1
  rw [htold] at hresult ⊢
  exact Session.carries_request (fun _ h ↦ by cases h) hn hresult .null
    (Json.fits_of_length hsent) (Json.fits_of_length hanswered)

def emitted (text : String) : EmitReply :=
  .ofCompiled ⟨"/a.ts"⟩ { text, sourceMap := some "/a.ts", fast := true } {}

namespace Steady

theorem carries_modules (h : Steady files t) (text : String) (hn : n < UInt64.size)
    (hsent : ∀ r ∈ [Request.registerFile ⟨"/a.ts"⟩ text, .emitFile ⟨"/a.ts"⟩ text],
      4 * (r.envelope n).toJson.chars.length ≤ Frame.maxBytes)
    (hanswered : ∀ payload ∈ [FileDeps.toJson {}, (emitted text).toJson],
      4 * (Response.ok n payload).toJson.chars.length ≤ Frame.maxBytes) :
    Session.Carries (world text) ⟨some t⟩ n (.registerFile ⟨"/a.ts"⟩ text) ∧
      Session.Carries (world text) ⟨some t⟩ n (.emitFile ⟨"/a.ts"⟩ text) := by
  have hdepth : Json.maxDepth - 1 = 122 + 4 := rfl
  rw [List.forall_mem_cons, List.forall_mem_singleton] at hsent hanswered
  have hscan : (world text).compiler.scan text = {} := rfl
  constructor
  · have hregistered := (h.unlinked.register ⟨"/a.ts"⟩ hscan).1
    have hresult := (Session.run_handle_of (w := world text) (s := ⟨some t⟩)
      (fun _ ↦ (Compilation.register (world text) ⟨"/a.ts"⟩ text).mapError CheckError.compile)
      FileDeps.toJson rfl (r := .registerFile ⟨"/a.ts"⟩ text) rfl).1
    rw [Action.run_mapError, hregistered] at hresult
    refine Session.carries_request (fun _ h ↦ by cases h) hn hresult ?_
      (Json.fits_of_length hsent.1) (Json.fits_of_length hanswered.1)
    rw [hdepth]
    exact FileDeps.portable_toJson _
  · have htranspile : (world text).compiler.transpile text (⟨"/a.ts"⟩ : Path).normalize
        t.compilation.options = .ok { text, sourceMap := some "/a.ts" } := by
      rw [normalize_file]
      rfl
    have hcompiled := (h.unlinked.compile hscan htranspile).1
    have hresult := (Session.run_handle_of (w := world text) (s := ⟨some t⟩)
      (fun t ↦ (Compilation.compile (world text) ⟨"/a.ts"⟩ text
        t.settings.transpileOnly).mapError CheckError.compile)
      (fun m ↦ (EmitReply.ofCompiled ⟨"/a.ts"⟩ m.output m.deps).toJson) rfl
      (r := .emitFile ⟨"/a.ts"⟩ text) rfl).1
    rw [h.mode, Action.run_mapError, hcompiled] at hresult
    refine Session.carries_request (fun _ h ↦ by cases h) hn hresult ?_
      (Json.fits_of_length hsent.2) (Json.fits_of_length hanswered.2)
    rw [hdepth]
    exact EmitReply.portable_toJson _

theorem carries_files (h : Steady files t) (text : String) (hn : n < UInt64.size)
    (hsent : 4 * (Request.files.envelope n).toJson.chars.length ≤ Frame.maxBytes)
    (hanswered : 4 * (Response.ok n (Json.strings (files.paths.map
      (·.text)))).toJson.chars.length ≤ Frame.maxBytes) :
    Session.Carries (world text) ⟨some t⟩ n .files := by
  have hresult : ((Session.handle (world text) .files).run ⟨some t⟩).result =
      .ok (Json.strings (t.compilation.files.paths.map (·.text))) := rfl
  rw [h.stored] at hresult
  refine Session.carries_request (fun _ h ↦ by cases h) hn hresult ?_
    (Json.fits_of_length hsent) (Json.fits_of_length hanswered)
  have hdepth : Json.maxDepth - 1 = 122 + 4 := rfl
  rw [hdepth]
  exact portable_strings _

theorem carries_diagnostics (h : Steady files t) (text : String) (hn : n < UInt64.size)
    (hsent : 4 * (Request.diagnostics.envelope n).toJson.chars.length ≤ Frame.maxBytes)
    (hanswered : 4 * (Response.ok n (.arr [])).toJson.chars.length ≤ Frame.maxBytes) :
    Session.Carries (world text) ⟨some t⟩ n .diagnostics := by
  have hresult := (Session.run_handle_of (w := world text) (s := ⟨some t⟩)
    (fun t ↦ Compilation.reports (world text) t.filter t.settings.context)
    (fun l ↦ .arr (l.map Report.toJson)) rfl (r := .diagnostics) rfl).1
  rw [result_reports h.orderly text] at hresult
  refine Session.carries_request (fun _ h ↦ by cases h) hn hresult ?_
    (Json.fits_of_length hsent) (Json.fits_of_length hanswered)
  have hdepth : Json.maxDepth - 1 = 125 + 1 := rfl
  rw [hdepth]
  simp

end Steady

theorem instance?_load (h : l.instance? (.top 0 "main") "default" = some i)
    (forkChecker : Bool) (text : String) : (load forkChecker text).instance? l = some i := by
  have hensure := Load.run_ensure_eq (load forkChecker text) (config forkChecker) l
  have hfound : l.instance? (load forkChecker text).context
      (config forkChecker).instanceName = some i := h
  rw [hfound] at hensure
  rw [Load.instance?, config?_load, Option.bind_some, hensure]
  rfl

def session : Session.Started :=
  (load false "a").session (config false) [] { context := ⟨"/"⟩ }

theorem carries_init (text : String) (forkChecker : Bool) : Session.Carries (world text) {} 1
    (.init ((load forkChecker text).setup (config forkChecker) [])) := by
  have hsetup : ((load forkChecker text).setup (config forkChecker) []) =
      (load forkChecker "a").setup (config forkChecker) [] := rfl
  have hresult : ((Session.handle (world text) (.init ((load forkChecker "a").setup
      (config forkChecker) []))).run {}).result = .ok .null := Loader.result_init _ _
  have hportable : ((load forkChecker "a").setup (config forkChecker) []).toJson.Portable
      (Json.maxDepth - 1) := by
    refine Setup.portable_toJson 123 (Json.Portable.obj_iff.2 (by simp [Load.setup, Loader.setup]))
      (Json.Portable.obj_iff.2 (by simp)) fun code hc ↦ absurd hc List.not_mem_nil
  rw [hsetup]
  refine Session.carries_of_ok (by decide) (fun code hc ↦ absurd hc List.not_mem_nil) hportable
    hresult .null (Json.fits_of_length ?_) (by decide +kernel)
  cases forkChecker <;> decide +kernel

def made (forkChecker : Bool) (checker : Option Client) : Instance :=
  Loader.assemble (surroundings "a") (config forkChecker) 0 [] { context := ⟨"/"⟩ } checker

theorem instance?_load_first (forkChecker : Bool) :
    ∃ i, (load forkChecker "a").instance? { disk := {} } = some i ∧ i.name = "default" ∧
      i.isForked = forkChecker ∧ i.cache = none ∧ i.Presents .within session 2 := by
  have hfilter : Loader.filterFor? (Loader.setup (surroundings "a") (config forkChecker) []
      (load forkChecker "a").request.options) = some { context := ⟨"/"⟩ } := rfl
  have hproject : (config forkChecker).project ({ disk := {} } : Loader).disk
      ((config forkChecker).context.getD
        (surroundings "a").workingDirectory) = .ok ⟨[], none⟩ :=
    project_config forkChecker
  obtain ⟨checker, hchecker, hmake, hpresents⟩ : ∃ checker, checker.isSome = forkChecker ∧
      ((Loader.make (load forkChecker "a").surroundings (config forkChecker)
        (load forkChecker "a").request.options).run { disk := {} }).result =
          .ok (made forkChecker checker) ∧
      (made forkChecker checker).Presents .within session 2 := by
    cases forkChecker with
    | false =>
      obtain ⟨hmake, -⟩ := Loader.run_make_here (surroundings "a") (load false "a").request.options
        rfl hproject hfilter
      exact ⟨none, rfl, hmake, .here rfl rfl rfl rfl rfl⟩
    | true =>
      have hworld : (surroundings "a").workers .within = (surroundings "a").world := rfl
      obtain ⟨-, hmake⟩ := Loader.serves_make hworld rfl rfl rfl hproject (carries_init "a" true)
      rw [hfilter] at hmake
      obtain ⟨client, hmake, hserves⟩ := hmake
      exact ⟨some client, rfl, hmake, .remote hserves rfl⟩
  refine ⟨made forkChecker checker, ?_, rfl, hchecker, rfl, hpresents⟩
  have hensure := Load.run_ensure_eq (load forkChecker "a") (config forkChecker) { disk := {} }
  rw [Load.instance?, config?_load, Option.bind_some, hensure, Loader.instance?_empty]
  simp only
  rw [Action.run_bind_of_ok hmake]
  rfl

/-- A load runs, if the wire carries what it asks of a checker. -/
theorem runs_load (forkChecker : Bool) (text : String) (hd : l.disk = {}) (hasked : ∀ i,
      (load forkChecker text).instance? l = some i → i.isForked = true →
        i.Carries .within (world text) (.registerFile ⟨"/a.ts"⟩ text) ∧
        i.Carries .within (world text) (.emitFile ⟨"/a.ts"⟩ text)) :
    (load forkChecker text).Runs (world text) .within {} l where
  world := rfl
  workers := rfl
  project config hconfig := by rw [hd]
  started config project hconfig _ _ hproject := by
    rw [config?_load] at hconfig
    obtain rfl := Option.some.inj hconfig
    obtain rfl := Except.ok.inj (hproject.symm.trans (project_config forkChecker))
    exact ⟨⟨fun _ ↦ .ok (.serving .within {}), rfl, rfl⟩, carries_init text forkChecker⟩
  asked i hi hforked := by
    have hfile : (load forkChecker text).file = ⟨"/a.ts"⟩ := normalize_file
    rw [hfile]
    exact ⟨by decide +kernel, hasked i hi hforked⟩

structure Settled (forkChecker : Bool) (files : FileStore) (n : Nat) (l : Loader) : Prop where
  named : l.Named
  disk : l.disk = {}
  only : ∀ name i, l.instance? (.top 0 "main") name = some i → name = "default"
  found : ∃ i t, l.instance? (.top 0 "main") "default" = some i ∧ i.isForked = forkChecker ∧
    i.cache = none ∧ i.Presents .within t n ∧ (t.compilation.Orderly fun _ ↦ .ok .silent) ∧
    (forkChecker = true → Steady files t)

theorem settled_run (hl : l.Named) (hd : l.disk = {})
    (hx : (load forkChecker text).Runs (world text) .within {} l)
    (honly : ∀ name i, l.instance? (.top 0 "main") name = some i → name = "default")
    (hi : (load forkChecker text).instance? l = some i) (hname : i.name = "default")
    (hforked : i.isForked = forkChecker) (hcache : i.cache = none) (ht : i.Presents .within t n)
    (ho : t.compilation.Orderly fun _ ↦ .ok .silent) (hs : forkChecker = true → Steady files t) :
    Settled forkChecker (storing files text) (n + 1) ((load forkChecker text).run l).state := by
  obtain ⟨j, c, l₁, hsame, hnext, htook, hputs, hl₁⟩ := Loader.takes_of_run hx hl hi ht ho
  have hfile : (load forkChecker text).file = ⟨"/a.ts"⟩ := normalize_file
  rw [hfile] at htook
  have hjname : j.name = "default" := hsame.name.trans hname
  constructor
  case named => exact fun ctx name k hk ↦ hl.puts hputs ctx name k (hl₁ ctx name ▸ hk)
  case disk => exact (Loader.disk_run hx hl hi ht hcache).trans hd
  case only =>
    intro name k hk
    rw [hl₁] at hk
    rcases hputs.instance? (.top 0 "main") name with ⟨-, hself, -⟩ | hsame
    · exact hself.trans hjname
    · exact honly name k (hsame ▸ hk)
  case found =>
    refine ⟨j, { t with compilation := c }, ?_, hsame.forked.trans hforked,
      hsame.cache.trans hcache, hnext, htook.orderly, fun h ↦ (hs h).took htook⟩
    rw [hl₁, ← hjname]
    exact hputs.self

theorem settled_first (forkChecker : Bool) :
    (load forkChecker "a").Runs (world "a") .within {} { disk := {} } ∧
      Settled forkChecker (storing { case := .sensitive } "a") 3
        ((load forkChecker "a").run { disk := {} }).state := by
  obtain ⟨i, hi, hname, hforked, hcache, hpresents⟩ := instance?_load_first forkChecker
  have hsteady : Steady { case := .sensitive } session :=
    ⟨Compilation.unlinked_make [] .sensitive, rfl, Compilation.orderly_make _ [] .sensitive, rfl⟩
  obtain ⟨hregister, hemit⟩ := hsteady.carries_modules "a" (n := 2) (by decide)
    (by decide +kernel) (by decide +kernel)
  have hx := runs_load forkChecker "a" (l := { disk := {} }) rfl
    fun j hj _ ↦ by
      obtain rfl := Option.some.inj (hi.symm.trans hj)
      exact ⟨hpresents.carries hregister, hpresents.carries hemit⟩
  have hempty (name : String) (j : Instance) (hj : Loader.instance? { disk := {} } (.top 0 "main")
      name = some j) : name = "default" := by
    rw [Loader.instance?_empty] at hj
    cases hj
  exact ⟨hx, settled_run (Loader.beside_empty .plain .within {}).left rfl hx hempty hi hname hforked
    hcache hpresents hsteady.orderly fun _ ↦ hsteady⟩

namespace Settled

theorem refreshed (h : Settled forkChecker files n l) (text : String)
    (hknown : files.has ⟨"/a.ts"⟩ = true) (hcarries : ∀ t,
      Session.CarriesAll (world text) ⟨some t⟩ n [.told (world text) ⟨"/a.ts"⟩]) :
    (∀ name i, l.instance? (.top 0 "main") name = some i →
      i.CarriesAll .within (world text) [.told (world text) ⟨"/a.ts"⟩]) ∧
    Settled forkChecker (storing files text) (n + 1)
      ((pass forkChecker text [⟨"/a.ts"⟩]).refreshed l) := by
  obtain ⟨i, t, hi, hforked, hcache, hpresents, horderly, hsteady⟩ := h.found
  have htold : i.CarriesAll .within (world text) ([⟨"/a.ts"⟩].map (.told (world text))) :=
    hpresents.carriesAll (hcarries t)
  refine ⟨fun name j hj ↦ ?_, ?_⟩
  · obtain rfl := h.only name j hj
    obtain rfl := Option.some.inj (hi.symm.trans hj)
    exact htold
  obtain ⟨-, hsame, c, hnext, htook, hkeeps⟩ :=
    hpresents.filesChanged (s := surroundings text) rfl htold
  have hplace (name : String) :
      ((pass forkChecker text [⟨"/a.ts"⟩]).refreshed l).instance? (.top 0 "main") name =
        (l.instance? (.top 0 "main") name).map fun i ↦
          ((Instance.filesChanged (surroundings text) [⟨"/a.ts"⟩]).run i).state :=
    (Loader.instance?_beforePass h.named (surroundings text) [⟨"/a.ts"⟩] (.top 0 "main") name).trans
      (if_pos ⟨rfl, List.cons_ne_nil _ _⟩)
  constructor
  case named => exact h.named.refreshed _
  case disk => exact (Loader.disk_beforePass _ _ _ l).trans h.disk
  case only =>
    intro name j hj
    rw [hplace] at hj
    obtain ⟨k, hk, -⟩ := Option.map_eq_some_iff.1 hj
    exact h.only name k hk
  case found =>
    refine ⟨_, { t with compilation := c }, (hplace "default").trans (by rw [hi]; rfl),
      hsame.forked.trans hforked, hsame.cache.trans hcache, hnext, hkeeps _ horderly, fun hb ↦ ?_⟩
    rw [hforked, hb] at htook
    exact (hsteady hb).tookOver hknown htook (hkeeps _ horderly)

theorem loaded (h : Settled forkChecker files n l) (text : String) (hcarries : ∀ t, Steady files t →
      Session.Carries (world text) ⟨some t⟩ n (.registerFile ⟨"/a.ts"⟩ text) ∧
      Session.Carries (world text) ⟨some t⟩ n (.emitFile ⟨"/a.ts"⟩ text)) :
    (load forkChecker text).Runs (world text) .within {} l ∧
      Settled forkChecker (storing files text) (n + 1)
        ((load forkChecker text).run l).state := by
  obtain ⟨i, t, hi, hforked, hcache, hpresents, horderly, hsteady⟩ := h.found
  have hfound := instance?_load hi forkChecker text
  have hx := runs_load forkChecker text h.disk fun j hj hb ↦ by
    obtain rfl := Option.some.inj (hfound.symm.trans hj)
    obtain ⟨hregister, hemit⟩ := hcarries t (hsteady (hforked.symm.trans hb))
    exact ⟨hpresents.carries hregister, hpresents.carries hemit⟩
  exact ⟨hx, settled_run h.named h.disk hx h.only hfound (h.named _ _ _ hi) hforked hcache hpresents
    horderly hsteady⟩

theorem diagnostics (h : Settled forkChecker files n l) (text : String)
    (hi : l.instance? (.top 0 "main") "default" = some i)
    (hcarries : i.Carries .within (world text) .diagnostics) :
    (Instance.Command.diagnostics.run (surroundings text) i).1 = .reports [] := by
  obtain ⟨j, t, hj, -, -, hpresents, horderly, -⟩ := h.found
  obtain rfl := Option.some.inj (hj.symm.trans hi)
  have hresult := result_reports horderly text t.filter t.settings.context
  refine (hpresents.diagnostics (s := surroundings text) rfl hcarries
    fun _ reports hok ↦ ?_).trans ?_
  · obtain rfl := Except.ok.inj (hresult.symm.trans hok)
    exact fun r hr ↦ absurd hr List.not_mem_nil
  · exact congrArg (fun r ↦ Instance.Answer.ofResult .reports (r.mapError .checker)) hresult

end Settled

open Loader (Builds through opening? Reloads modules)

def passes (forkChecker : Bool) : List Pass :=
  [pass forkChecker "a" [], pass forkChecker "b" [⟨"/a.ts"⟩]]

theorem builds_passes (forkChecker : Bool) :
    Builds .within (fun _ ↦ .ok .silent) {} { disk := {} } (passes forkChecker) ∧
      Settled forkChecker (storing (storing (storing { case := .sensitive } "a") "b") "b") 5
        (through { disk := {} } (passes forkChecker)) := by
  obtain ⟨hx, hfirst⟩ := settled_first forkChecker
  obtain ⟨htold, hrefreshed⟩ := hfirst.refreshed "b" (by decide +kernel)
    fun t ↦ carries_told t "b" (by decide) (by decide +kernel) (by decide +kernel)
  obtain ⟨hx', hlast⟩ := hrefreshed.loaded "b" fun t ht ↦
    ht.carries_modules "b" (by decide) (by decide +kernel) (by decide +kernel)
  have hnone (name : String) (i : Instance)
      (hi : Loader.instance? { disk := {} } (.top 0 "main") name = some i) :
      i.CarriesAll .within (world "a") [] := by
    rw [Loader.instance?_empty] at hi
    cases hi
  exact ⟨⟨⟨rfl, rfl, hnone, hx, trivial⟩, ⟨rfl, rfl, htold, hx', trivial⟩, trivial⟩, hlast⟩

theorem forked_passes : List.Forall₂ Pass.Forked (passes false) (passes true) := by
  have hload (text : String) : (load false text).Forked (load true text) := by
    refine ⟨rfl, rfl, rfl, rfl, fun config hconfig ↦ ?_, rfl⟩
    rw [config?_load] at hconfig
    obtain rfl := Option.some.inj hconfig
    rfl
  have hpass (text : String) (changed : List Path) :
      (pass false text changed).Forked (pass true text changed) :=
    ⟨rfl, rfl, rfl, .cons (hload text) .nil⟩
  exact .cons (hpass _ _) (.cons (hpass _ _) .nil)

theorem opening?_passes : opening? {} (.top 0 "main") "default"
    ((passes false).flatMap Pass.loads) = some session := by
  have hask : (load false "a").Asks (.top 0 "main") "default" :=
    ⟨rfl, by rw [config?_load]; rfl⟩
  have hproject : (config false).project {} ((load false "a").directory
      (config false)) = .ok ⟨[], none⟩ := project_config false
  have hopens : (load false "a").opens? {} (.top 0 "main") "default" =
      some session := by
    rw [Load.opens?, if_pos hask, config?_load, Option.bind_some, Load.parts?, hproject]
    rfl
  have hloads : (passes false).flatMap Pass.loads =
      [load false "a", load false "b"] := rfl
  rw [hloads, Loader.opening?_cons, hopens, Option.some_or]

theorem reloads_passes : Reloads ⟨world "b", [], .sensitive, (· = ⟨"/a.ts"⟩)⟩ {}
    (.top 0 "main") "default" [] { disk := {} } (passes false) := by
  have hloads (text : String) (opened : Bool) : ∀ m ∈ modules {} (.top 0 "main") "default" opened
      [load false text], m = (⟨"/a.ts"⟩, text) := by
    intro m hm
    obtain ⟨x, hx, rfl⟩ := Loader.mem_modules hm
    obtain rfl := List.mem_singleton.1 hx
    exact congrArg (·, text) normalize_file
  refine ⟨fun _ ↦ scene_reloads (fun p hp ↦ ?_) (hloads "a" _),
    fun _ ↦ scene_reloads (fun p hp ↦ ?_) (hloads "b" _), trivial⟩
  · exact absurd (Pass.mem_changedFor hp) List.not_mem_nil
  · exact List.mem_singleton.1 (Pass.mem_changedFor hp)

/-- An instance with a checker reports the file whose text has changed as the one
without. -/
theorem reports_alike_oneFile :
    let l (forkChecker : Bool) := through { disk := {} } (passes forkChecker)
    ∃ here forked, (l false).instance? (.top 0 "main") "default" = some here ∧
      (l true).instance? (.top 0 "main") "default" = some forked ∧
      here.isForked = false ∧ forked.isForked = true ∧
      (Instance.Command.knownFiles.run (surroundings "b") forked).1 = .files [⟨"/a.ts"⟩] ∧
      (Instance.Command.knownFiles.run (surroundings "b") here).1 = .files [⟨"/a.ts"⟩] ∧
      (Instance.Command.diagnostics.run (surroundings "b") forked).1 = .reports [] ∧
      (Instance.Command.diagnostics.run (surroundings "b") here).1 = .reports [] := by
  intro l
  obtain ⟨hruns, hsettled⟩ := builds_passes false
  obtain ⟨hruns', hsettled'⟩ := builds_passes true
  obtain ⟨here, forked, hhere, hforked, hmode, hmode', hknown, hreports⟩ :=
    Loader.reports_alike (s := surroundings "b") forked_passes hruns hruns' opening?_passes
      reloads_passes rfl rfl
  obtain ⟨i, t, hi, -, -, hpresents, -, hsteady⟩ := hsettled'.found
  obtain rfl := Option.some.inj (hi.symm.trans hforked)
  have hcarries := hpresents.carries ((hsteady rfl).carries_files "b" (by decide)
    (by decide +kernel) (by decide +kernel))
  have hcarries' := hpresents.carries ((hsteady rfl).carries_diagnostics "b" (by decide)
    (by decide +kernel) (by decide +kernel))
  have hfiles : (Instance.Command.knownFiles.run (surroundings "b") i).1 = .files [⟨"/a.ts"⟩] := by
    have hpaths : (storing (storing (storing { case := .sensitive } "a") "b") "b").paths =
        [⟨"/a.ts"⟩] := by decide +kernel
    rw [hpresents.knownFiles rfl hcarries, (hsteady rfl).stored, hpaths]
  have hhere' := hsettled.diagnostics "b" hhere (Instance.carries_of_alone hmode)
  refine ⟨here, i, hhere, hforked, hmode, hmode', hfiles, (hknown hcarries).symm.trans hfiles, ?_,
    hhere'⟩
  have hfits : (Instance.Command.diagnostics.run (surroundings "b") here).1.Fits := by
    rw [hhere']
    exact fun r hr ↦ absurd hr List.not_mem_nil
  exact (hreports hcarries' hfits).trans hhere'

end OneFile

end TypedLoader
