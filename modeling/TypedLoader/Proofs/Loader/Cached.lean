import TypedLoader.Proofs.Cache.Output
import TypedLoader.Proofs.Loader.Loads

namespace TypedLoader

open TypedLoader.Compilation (Matched Orderly Unlinked)

variable {w : World} {home : WorkerHome} {build : Host → Except String Program} {d : Disk}

namespace Compilation

variable {c c' c₁ c₁' : Compilation} {p : Path} {text : String}

/-- The text of a module has been taken in, and at most a program has been built since. -/
structure Took (w : World) (p : Path) (text : String) (c c₁ : Compilation) : Prop where
  same : c₁.dropProgram = ((sync w p text).run c).state.dropProgram
  orderly : c₁.Orderly w.compiler.build

theorem took_register (h : c.Orderly w.compiler.build) :
    Took w p text c ((register w p text).run c).state where
  same := by rw [(run_register w p text c).2]
  orderly := Orderly.register w p text c h

theorem took_compile (h : c.Orderly w.compiler.build) (transpileOnly : Bool) :
    Took w p text c ((compile w p text transpileOnly).run c).state where
  same := (run_compile w p text transpileOnly c).2
  orderly := Orderly.compile rfl p text transpileOnly c h

theorem Matched.took (h : Matched w.compiler.build c c') (ht : Took w p text c c₁)
    (ht' : Took w p text c' c₁') : Matched w.compiler.build c₁ c₁' where
  same := by rw [ht'.same, ht.same, (h.sync w p text).2.same]
  left := ht.orderly
  right := ht'.orderly

theorem compile_eq_ok {transpileOnly : Bool} {m : CompiledModule} :
    ((compile w p text transpileOnly).run c).result = .ok m ↔
      let o := (sync w p text).run c
      o.result = .ok () ∧
        ((emitOrTranspile w p transpileOnly).run o.state).result = .ok m.output ∧
        m.deps = FileDeps.collect o.state.deps p := by
  rw [(run_compile w p text transpileOnly c).1]
  dsimp only
  cases ((sync w p text).run c).result with
  | error e => simp [Except.bind]
  | ok u =>
    cases ((emitOrTranspile w p transpileOnly).run ((sync w p text).run c).state).result with
    | error e => simp [Except.bind, Except.map]
    | ok output =>
      obtain ⟨output', deps⟩ := m
      simp [Except.bind, Except.map, eq_comm]

theorem register_eq_ok {deps : FileDeps} : ((register w p text).run c).result = .ok deps ↔
    ((sync w p text).run c).result = .ok () ∧
      deps = FileDeps.collect ((sync w p text).run c).state.deps p := by
  rw [(run_register w p text c).1]
  cases ((sync w p text).run c).result with
  | error e => simp [Except.map]
  | ok u => simp [Except.map, eq_comm]

theorem Matched.collect_eq (h : Matched w.compiler.build c c') (p : Path) :
    FileDeps.collect c'.deps p = FileDeps.collect c.deps p := by
  have hdeps : c'.dropProgram.deps = c.dropProgram.deps := by rw [h.same]
  have hdeps : c'.deps = c.deps := hdeps
  rw [hdeps]

theorem Matched.deps (h : Matched w.compiler.build c c') {transpileOnly : Bool} {deps : FileDeps}
    {m : CompiledModule} (hdeps : ((register w p text).run c).result = .ok deps)
    (hm : ((compile w p text transpileOnly).run c').result = .ok m) : m.deps = deps := by
  rw [(compile_eq_ok.1 hm).2.2, (register_eq_ok.1 hdeps).2, (h.sync w p text).2.collect_eq]

/-- What has been compiled once is compiled again to the same script, from the text
alone or in the same state. -/
theorem Matched.compile_again (h : Matched w.compiler.build c c') {transpileOnly : Bool}
    (h₁ : c₁.Orderly w.compiler.build) (hoptions : c₁.options = c.options)
    (hstate : transpileOnly = false → ((Compilation.sync w p text).run c₁).state.dropProgram =
      ((Compilation.sync w p text).run c).state.dropProgram) {m : CompiledModule} {deps : FileDeps}
    (hm : ((compile w p text transpileOnly).run c₁).result = .ok m)
    (hdeps : ((register w p text).run c).result = .ok deps) :
    ((compile w p text transpileOnly).run c').result = .ok ⟨m.output, deps⟩ := by
  obtain ⟨-, hemit, -⟩ := compile_eq_ok.1 hm
  obtain ⟨hregister, hcollect⟩ := register_eq_ok.1 hdeps
  obtain ⟨hresult, hsynced⟩ := h.sync w p text
  refine compile_eq_ok.2 ⟨hresult.trans hregister, ?_, ?_⟩
  · cases transpileOnly with
    | true =>
      have hsame : c'.dropProgram.options = c.dropProgram.options := by rw [h.same]
      have hsame : c'.options = c.options := hsame
      rw [h₁.tidy.result_transpile, hoptions, ← hsame] at hemit
      rw [h.right.tidy.result_transpile]
      exact hemit
    | false =>
      have htwins : Twins w.compiler.build ((Compilation.sync w p text).run c₁).state
          ((Compilation.sync w p text).run c').state :=
        ⟨hsynced.same.trans (hstate rfl).symm, (Orderly.sync w p text c₁ h₁).fresh,
          hsynced.right.fresh⟩
      exact ((transparent_emitOrTranspile rfl p false) _ _ htwins).1.trans hemit
  · exact hcollect.trans (hsynced.collect_eq p).symm

end Compilation

/-- The compilation that an instance works on, if its checker serves one. -/
def Instance.held? (i : Instance) : Option Compilation :=
  match i.checker with
  | none => some i.compilation
  | some client =>
    match client.connection.worker with
    | .serving _ s => s.started.map (·.compilation)
    | _ => none

theorem Instance.Holds.held? {i : Instance} {c : Compilation} (h : i.Holds home c) :
    i.held? = some c := by
  cases h with
  | here alone own => rw [Instance.held?, alone, own]
  | remote serves own _ =>
    obtain ⟨client, hclient, hrests, -⟩ := serves.client
    rw [Instance.held?, hclient, ← own]
    simp only [hrests.connection.worker]
    rfl

/-- An instance with the same setup up to its cache, which it does not have, in the
same state. -/
structure Instance.Beside (w : World) (home : WorkerHome) (i i' : Instance) : Prop where
  config : i'.config = { i.config with useCache := false }
  cache : i'.cache = none
  compilations : ∃ c c', i.Holds home c ∧ i'.Holds home c' ∧ Matched w.compiler.build c c'

theorem Instance.Beside.name {i i' : Instance} (h : i.Beside w home i') : i'.name = i.name := by
  rw [Instance.name, h.config, Instance.name]

structure Load.Uncached (x x' : Load) : Prop where
  surroundings : x'.surroundings = x.surroundings
  context : x'.context = x.context
  path : x'.request.path = x.request.path
  source : x'.request.source = x.request.source
  config : x'.config? = x.config?.map fun config ↦ { config with useCache := false }

theorem Load.Uncached.parts? {x x' : Load} (hu : x.Uncached x') (d : Disk)
    (config : LoaderConfig) :
    x'.parts? d { config with useCache := false } = x.parts? d config := by
  rw [Load.parts?, Load.parts?, Load.directory, Load.directory, hu.surroundings]
  have hproject : LoaderConfig.project { config with useCache := false } = config.project := rfl
  have hfilter (options : Json.Object) :
      Loader.filterFor? (x'.setup { config with useCache := false } options) =
        Loader.filterFor? (x.setup config options) := by
    rw [Load.setup, Load.setup, hu.surroundings]
    rfl
  simp only [hproject, hfilter]

theorem Load.Uncached.caseFor {x x' : Load} (hu : x.Uncached x') (config : LoaderConfig) :
    x'.caseFor { config with useCache := false } = x.caseFor config := by
  rw [Load.caseFor, Load.caseFor, hu.surroundings]

namespace Loader

structure Beside (w : World) (home : WorkerHome) (l l' : Loader) : Prop where
  left : l.Named
  right : l'.Named
  instances : ∀ ctx name, l.instance? ctx name = none ∧ l'.instance? ctx name = none ∨
    ∃ i i', l.instance? ctx name = some i ∧ l'.instance? ctx name = some i' ∧ i.Beside w home i'

theorem instance?_empty (d : Disk) (ctx : BuildContext) (name : String) :
    instance? { disk := d } ctx name = none := by
  rw [instance?, instancesOf, Std.ExtTreeMap.getElem?_empty, Option.getD_none,
    Std.ExtTreeMap.getElem?_empty]

theorem beside_empty (w : World) (home : WorkerHome) (d : Disk) :
    Beside w home { disk := d } { disk := d } where
  left ctx name i h := by
    rw [instance?_empty] at h
    cases h
  right ctx name i h := by
    rw [instance?_empty] at h
    cases h
  instances ctx name := Or.inl ⟨instance?_empty d ctx name, instance?_empty d ctx name⟩

section Steps

variable {l l' : Loader} {x x' : Load} {ctx : BuildContext} {i i' : Instance}

theorem Named.puts (h : l.Named) {l₁ : Loader} (hp : Puts l ctx i l₁) : l₁.Named := by
  intro ctx' name j hj
  rcases hp.instance? ctx' name with ⟨-, rfl, hself⟩ | hsame
  · obtain rfl := Option.some.inj (hself.symm.trans hj)
    rfl
  · exact h ctx' name j (hsame ▸ hj)

theorem Beside.puts (h : Beside w home l l') (hi : i.Beside w home i') {l₁ l₁' : Loader}
    (hp : Puts l ctx i l₁) (hp' : Puts l' ctx i' l₁') : Beside w home l₁ l₁' where
  left := h.left.puts hp
  right := h.right.puts hp'
  instances ctx' name := by
    by_cases hplace : ctx'.tree = ctx.tree ∧ name = i.name
    · obtain ⟨htree, rfl⟩ := hplace
      refine Or.inr ⟨i, i', (instance?_of_tree htree l₁ _).trans hp.self, ?_, hi⟩
      exact (instance?_of_tree htree l₁' _).trans (hi.name ▸ hp'.self)
    · rw [not_and_or] at hplace
      rw [hp.others ctx' name hplace, hp'.others ctx' name (hi.name ▸ hplace)]
      exact h.instances ctx' name

theorem Beside.instance? (h : Beside w home l l') (hx : x.Runs w home d l)
    (hx' : x'.Runs w home d l') (hu : x.Uncached x') :
    x.instance? l = none ∧ x'.instance? l' = none ∨
      ∃ i i', x.instance? l = some i ∧ x'.instance? l' = some i' ∧ i.Beside w home i' := by
  cases hconfig : x.config? with
  | none =>
    have hconfig' : x'.config? = none := by rw [hu.config, hconfig]; rfl
    rw [Load.instance?, Load.instance?, hconfig, hconfig']
    exact Or.inl ⟨rfl, rfl⟩
  | some config =>
    have hconfig' : x'.config? = some { config with useCache := false } := by
      rw [hu.config, hconfig]
      rfl
    have hrun := hx.run_ensure hconfig
    have hrun' := hx'.run_ensure hconfig'
    rw [hu.parts?] at hrun'
    simp only [hu.context] at hrun'
    rw [Load.instance?, Load.instance?, hconfig, hconfig', Option.bind_some, Option.bind_some,
      hu.context]
    rcases h.instances x.context config.instanceName with ⟨hnone, hnone'⟩ |
      ⟨i, i', hfound, hfound', hbeside⟩
    · rcases hrun with ⟨i, hfound, -⟩ | ⟨-, hmade⟩
      · rw [hnone] at hfound
        cases hfound
      rcases hrun' with ⟨i, hfound, -⟩ | ⟨-, hmade'⟩
      · rw [hnone'] at hfound
        cases hfound
      cases hp : x.parts? d config with
      | none =>
        rw [hp] at hmade hmade'
        obtain ⟨⟨e, he⟩, -⟩ := hmade
        obtain ⟨⟨e', he'⟩, -⟩ := hmade'
        rw [he, he']
        exact Or.inl ⟨rfl, rfl⟩
      | some parts =>
        rw [hp] at hmade hmade'
        obtain ⟨checker, -, hok, hpresents, -⟩ := hmade
        obtain ⟨checker', -, hok', hpresents', -⟩ := hmade'
        rw [hok, hok']
        refine Or.inr ⟨_, _, rfl, rfl, rfl, rfl, _, _, hpresents.holds, hpresents'.holds, ?_⟩
        rw [Load.session, Load.session]
        dsimp only
        rw [hu.caseFor]
        exact ⟨rfl, Compilation.orderly_make _ _ _, Compilation.orderly_make _ _ _⟩
    · rcases hrun with ⟨j, hj, hok, -⟩ | ⟨hnone, -⟩
      · rcases hrun' with ⟨j', hj', hok', -⟩ | ⟨hnone, -⟩
        · obtain rfl := Option.some.inj (hfound.symm.trans hj)
          obtain rfl := Option.some.inj (hfound'.symm.trans hj')
          rw [hok, hok']
          exact Or.inr ⟨i, i', rfl, rfl, hbeside⟩
        · rw [hfound'] at hnone
          cases hnone
      · rw [hfound] at hnone
        cases hnone

theorem instance?_store (i : Instance) (m : ModuleRequest) (loaded : LoadedModule) (l : Loader)
    (ctx : BuildContext) (name : String) :
    (store i m loaded l).instance? ctx name = l.instance? ctx name := by
  have hdisk (disk : Disk) : ({ l with disk } : Loader).instance? ctx name =
      l.instance? ctx name := rfl
  cases hcache : i.cache with
  | none => rw [store, hcache]
  | some cache =>
    rw [store, hcache]
    exact hdisk _

theorem disk_store {m : ModuleRequest} {loaded : LoadedModule} {cache : OutputCache}
    (h : i.cache = some cache) : (store i m loaded l).disk =
      (cache.put l.disk (cacheKey i m) loaded.toCached).2 := by
  rw [store, h]

theorem Beside.of_instances (h : Beside w home l l') {l₁ l₁' : Loader}
    (hl : ∀ ctx name, l₁.instance? ctx name = l.instance? ctx name)
    (hl' : ∀ ctx name, l₁'.instance? ctx name = l'.instance? ctx name) :
    Beside w home l₁ l₁' where
  left ctx name i hi := h.left ctx name i (hl ctx name ▸ hi)
  right ctx name i hi := h.right ctx name i (hl' ctx name ▸ hi)
  instances ctx name := by
    rw [hl, hl']
    exact h.instances ctx name

theorem hit?_of_beside (hi : x.instance? l = some i') (hcache : i'.cache = none) :
    x.hit? l = none := by
  rw [Load.hit?, hi, Option.bind_some, cached?, hcache, Option.bind_none]

theorem disk_run {t : Session.Started} {n : Nat} (hx : x.Runs w home d l) (hl : l.Named)
    (hi : x.instance? l = some i) (ht : i.Presents home t n) (hcache : i.cache = none) :
    (x.run l).state.disk = l.disk := by
  obtain ⟨-, j, -, -, l₁, hputs, hfailed, hdone⟩ := hx.compiles hl hi ht (hit?_of_beside hi hcache)
  cases hr : (x.run l).result with
  | error e =>
    rw [hfailed e hr]
    exact hputs.disk
  | ok m =>
    rw [hdone m hr, store, hcache]
    exact hputs.disk

theorem takes_of_run {t : Session.Started} {n : Nat} (hx : x.Runs w home d l) (hl : l.Named)
    (hi : x.instance? l = some i) (ht : i.Presents home t n)
    (ho : t.compilation.Orderly w.compiler.build) :
    ∃ j c l₁, i.SameSetup j ∧ j.Presents home { t with compilation := c } (n + 1) ∧
      Compilation.Took w x.file x.request.source t.compilation c ∧ Puts l x.context j l₁ ∧
      ∀ ctx name, (x.run l).state.instance? ctx name = l₁.instance? ctx name := by
  cases hhit : x.hit? l with
  | some hit =>
    obtain ⟨-, j, hsame, hpresents, hputs⟩ := hx.registers hl hi ht hhit
    exact ⟨j, ((Compilation.register w x.file x.request.source).run t.compilation).state,
      (x.run l).state, hsame, hpresents, Compilation.took_register ho, hputs, fun _ _ ↦ rfl⟩
  | none =>
    obtain ⟨-, j, hsame, hpresents, l₁, hputs, hfailed, hdone⟩ := hx.compiles hl hi ht hhit
    refine ⟨j, ((Compilation.compile w x.file x.request.source i.config.transpileOnly).run
      t.compilation).state, l₁, hsame, hpresents, Compilation.took_compile ho _, hputs,
      fun ctx name ↦ ?_⟩
    cases hr : (x.run l).result with
    | error e => rw [hfailed e hr]
    | ok m =>
      rw [hdone m hr]
      exact instance?_store i x.request m l₁ ctx name

theorem took_of_run {c : Compilation} (hx : x.Runs w home d l) (hl : l.Named)
    (hi : x.instance? l = some i) (hc : i.Holds home c) (ho : c.Orderly w.compiler.build) :
    ∃ j c₁ l₁, i.SameSetup j ∧ j.Holds home c₁ ∧
      Compilation.Took w x.file x.request.source c c₁ ∧ Puts l x.context j l₁ ∧
      ∀ ctx name, (x.run l).state.instance? ctx name = l₁.instance? ctx name := by
  obtain ⟨t, n, rfl, ht⟩ := hc.presents
  obtain ⟨j, c, l₁, hsame, hpresents, htook, hputs, hl₁⟩ := takes_of_run hx hl hi ht ho
  exact ⟨j, c, l₁, hsame, hpresents.holds, htook, hputs, hl₁⟩

theorem Beside.step (h : Beside w home l l') (hx : x.Runs w home d l) (hx' : x'.Runs w home d l')
    (hu : x.Uncached x') : Beside w home (x.run l).state (x'.run l').state := by
  rcases h.instance? hx hx' hu with ⟨hnone, hnone'⟩ | ⟨i, i', hi, hi', hbeside⟩
  · exact h.of_instances (hx.failed hnone).2.instance? (hx'.failed hnone').2.instance?
  · obtain ⟨c, c', hc, hc', hmatched⟩ := hbeside.compilations
    obtain ⟨j, c₁, l₁, hsame, hholds, htook, hputs, hl₁⟩ :=
      took_of_run hx h.left hi hc hmatched.left
    obtain ⟨j', c₁', l₁', hsame', hholds', htook', hputs', hl₁'⟩ :=
      took_of_run hx' h.right hi' hc' hmatched.right
    have hfile : x'.file = x.file := by rw [Load.file, Load.file, hu.path]
    rw [hfile, hu.source] at htook'
    rw [hu.context] at hputs'
    have hj : j.Beside w home j' := {
      config := by rw [hsame'.config, hsame.config, hbeside.config]
      cache := hsame'.cache.trans hbeside.cache
      compilations := ⟨c₁, c₁', hholds, hholds', hmatched.took htook htook'⟩ }
    exact (h.puts hj hputs hputs').of_instances hl₁ hl₁'

theorem Beside.output (h : Beside w home l l') (hx : x.Runs w home d l)
    (hx' : x'.Runs w home d l') (hu : x.Uncached x') {hit : CachedOutput} {out : LoadedModule}
    (hhit : x.hit? l = some hit) (hout : (x.run l).result = .ok out) :
    out.text = hit.text ∧ out.sourceMap = hit.sourceMap := by
  rcases h.instance? hx hx' hu with ⟨hnone, -⟩ | ⟨i, i', hi, -, hbeside⟩
  · obtain ⟨⟨e, he⟩, -⟩ := hx.failed hnone
    rw [he] at hout
    cases hout
  obtain ⟨c, -, hc, -⟩ := hbeside.compilations
  obtain ⟨⟨f, hf⟩, -⟩ := hx.served h.left hi hc hhit
  obtain ⟨deps, -, rfl⟩ := map_eq_ok (mapError_eq_ok (hf.symm.trans hout))
  exact ⟨rfl, rfl⟩

/-- What a module that is served from the cache depends on is what it depends on without
the cache. -/
theorem Beside.dependencies (h : Beside w home l l') (hx : x.Runs w home d l)
    (hx' : x'.Runs w home d l') (hu : x.Uncached x') {hit : CachedOutput} {out out' : LoadedModule}
    (hhit : x.hit? l = some hit) (hout : (x.run l).result = .ok out)
    (hout' : (x'.run l').result = .ok out') : out'.dependencies = out.dependencies := by
  rcases h.instance? hx hx' hu with ⟨hnone, -⟩ | ⟨i, i', hi, hi', hbeside⟩
  · obtain ⟨⟨e, he⟩, -⟩ := hx.failed hnone
    rw [he] at hout
    cases hout
  obtain ⟨c, c', hc, hc', hmatched⟩ := hbeside.compilations
  obtain ⟨⟨f, hf⟩, -⟩ := hx.served h.left hi hc hhit
  obtain ⟨⟨f', hf'⟩, -⟩ := hx'.compiled h.right hi' hc' (hit?_of_beside hi' hbeside.cache)
  have hfile : x'.file = x.file := by rw [Load.file, Load.file, hu.path]
  rw [hfile, hu.source] at hf'
  obtain ⟨deps, hdeps, rfl⟩ := map_eq_ok (mapError_eq_ok (hf.symm.trans hout))
  obtain ⟨m, hm, rfl⟩ := map_eq_ok (mapError_eq_ok (hf'.symm.trans hout'))
  exact congrArg FileDeps.all (hmatched.deps hdeps hm)

end Steps

theorem Beside.after {l l' : Loader} {xs xs' : List Load} (h : Beside w home l l')
    (hu : List.Forall₂ Load.Uncached xs xs') (hxs : Runs w home d l xs)
    (hxs' : Runs w home d l' xs') : Beside w home (l.after xs) (l'.after xs') := by
  induction hu generalizing l l' with
  | nil => exact h
  | cons hx _ ih => exact ih (h.step hxs.1 hxs'.1 hx) hxs.2 hxs'.2

/-- A load has compiled a module, and has given out this output under this key. -/
def Compiled (d : Disk) (xs : List Load) (key : CacheKey) (o : CachedOutput) : Prop :=
  ∃ earlier y later, xs = earlier ++ y :: later ∧
    let l := after { disk := d } earlier
    y.hit? l = none ∧ y.key? l = some key ∧ ∃ m, (y.run l).result = .ok m ∧ m.toCached = o

theorem Compiled.concat {xs : List Load} {key : CacheKey} {o : CachedOutput}
    (h : Compiled d xs key o) (x : Load) : Compiled d (xs ++ [x]) key o := by
  obtain ⟨earlier, y, later, rfl, hy⟩ := h
  exact ⟨earlier, y, later ++ [x], by simp, hy⟩

/-- A load puts nothing but its own output into the cache. -/
theorem noted_run {l l' : Loader} {x : Load} {noted : CacheKey → CachedOutput → Prop}
    (hb : Beside w home l l') (hx : x.Runs w home d l) {x' : Load} (hx' : x'.Runs w home d l')
    (hu : x.Uncached x') (hd : OutputCache.Noted noted l.disk)
    (hnew : ∀ key m, x.hit? l = none → x.key? l = some key → (x.run l).result = .ok m →
      noted key m.toCached) : OutputCache.Noted noted (x.run l).state.disk := by
  rcases hb.instance? hx hx' hu with ⟨hnone, -⟩ | ⟨i, i', hi, -, hbeside⟩
  · rw [(hx.failed hnone).2.disk]
    exact hd
  obtain ⟨c, -, hc, -⟩ := hbeside.compilations
  cases hhit : x.hit? l with
  | some hit =>
    obtain ⟨-, j, -, -, hputs⟩ := hx.served hb.left hi hc hhit
    rw [hputs.disk]
    exact hd
  | none =>
    obtain ⟨-, j, -, -, l₁, hputs, hfailed, hdone⟩ := hx.compiled hb.left hi hc hhit
    cases hr : (x.run l).result with
    | error e =>
      rw [hfailed e hr, hputs.disk]
      exact hd
    | ok m =>
      rw [hdone m hr]
      rw [← hputs.disk] at hd
      cases hcache : i.cache with
      | none => rwa [store, hcache]
      | some cache =>
        have hkey : x.key? l = some (cacheKey i x.request) := by
          rw [Load.key?, hi, Option.map_some]
        rw [disk_store hcache]
        exact hd.put (CacheKey.plain_compute _ _ _) (hnew _ m hhit hkey hr) cache

theorem noted_after (done : List Load) {xs xs' : List Load} {l' : Loader}
    (hb : Beside w home (after { disk := d } done) l')
    (hn : OutputCache.Noted (Compiled d done) (after { disk := d } done).disk)
    (hu : List.Forall₂ Load.Uncached xs xs') (hxs : Runs w home d (after { disk := d } done) xs)
    (hxs' : Runs w home d l' xs') :
    OutputCache.Noted (Compiled d (done ++ xs)) (after { disk := d } (done ++ xs)).disk := by
  induction hu generalizing done l' with
  | nil =>
    rw [List.append_nil]
    exact hn
  | @cons x x' xs xs' hx _ ih =>
    have hstate : after { disk := d } (done ++ [x]) =
        (x.run (after { disk := d } done)).state := after_append ..
    have hsplit : done ++ x :: xs = done ++ [x] ++ xs := by simp
    have hnext := hb.step hxs.1 hxs'.1 hx
    have hnoted : OutputCache.Noted (Compiled d (done ++ [x]))
        (x.run (after { disk := d } done)).state.disk := by
      refine noted_run hb hxs.1 hxs'.1 hx (hn.mono fun key o h ↦ h.concat x) ?_
      intro key m hmiss hkey hm
      exact ⟨done, x, [], rfl, hmiss, hkey, m, hm, rfl⟩
    rw [← hstate] at hnext hnoted
    rw [hsplit]
    exact ih (done ++ [x]) hnext hnoted (hstate ▸ hxs.2) hxs'.2

end Loader

/-- In `l₁` the first load asks the same of a module as the second one in `l₂`: the same
file from the same text, in the same mode and with the same options, and unless it is
made from its text alone, in the same state but for the program that is kept. -/
structure Load.Repeats (w : World) (y : Load) (l₁ : Loader) (x : Load) (l₂ : Loader) : Prop where
  file : y.file = x.file
  source : y.request.source = x.request.source
  state : ∃ i j c c', y.instance? l₁ = some i ∧ x.instance? l₂ = some j ∧
    i.held? = some c ∧ j.held? = some c' ∧ i.config.transpileOnly = j.config.transpileOnly ∧
    c.options = c'.options ∧ (i.config.transpileOnly = false →
      ((Compilation.sync w x.file x.request.source).run c).state.dropProgram =
        ((Compilation.sync w x.file x.request.source).run c').state.dropProgram)

namespace Loader

theorem Beside.repeated {l l' l₁ l₁' : Loader} {x x' y y' : Load} {hit : CachedOutput}
    {out : LoadedModule} (h : Beside w home l l') (hx : x.Runs w home d l)
    (hx' : x'.Runs w home d l') (hu : x.Uncached x') (hhit : x.hit? l = some hit)
    (hout : (x.run l).result = .ok out) (h₁ : Beside w home l₁ l₁') (hy : y.Runs w home d l₁)
    (hy' : y'.Runs w home d l₁') (hv : y.Uncached y') (hmiss : y.hit? l₁ = none) {m : LoadedModule}
    (hm : (y.run l₁).result = .ok m) (hcached : m.toCached = hit) (hr : y.Repeats w l₁ x l) :
    (x'.run l').result = .ok out := by
  obtain ⟨k, j, c₁, c, hk, hj, hk₁, hj₁, hmode, hoptions, hstate⟩ := hr.state
  rcases h.instance? hx hx' hu with ⟨hnone, -⟩ | ⟨i, i', hi, hi', hbeside⟩
  · rw [hnone] at hj
    cases hj
  rcases h₁.instance? hy hy' hv with ⟨hnone, -⟩ | ⟨i₁, i₁', hi₁, -, hbeside₁⟩
  · rw [hnone] at hk
    cases hk
  obtain rfl := Option.some.inj (hi.symm.trans hj)
  obtain rfl := Option.some.inj (hi₁.symm.trans hk)
  obtain ⟨b, b', hb, hb', hmatched⟩ := hbeside.compilations
  obtain ⟨b₁, b₁', hb₁, -, hmatched₁⟩ := hbeside₁.compilations
  obtain rfl := Option.some.inj (hb.held?.symm.trans hj₁)
  obtain rfl := Option.some.inj (hb₁.held?.symm.trans hk₁)
  obtain ⟨⟨f, hf⟩, -⟩ := hx.served h.left hi hb hhit
  obtain ⟨⟨f₁, hf₁⟩, -⟩ := hy.compiled h₁.left hi₁ hb₁ hmiss
  obtain ⟨⟨f', hf'⟩, -⟩ := hx'.compiled h.right hi' hb' (hit?_of_beside hi' hbeside.cache)
  obtain ⟨deps, hdeps, rfl⟩ := map_eq_ok (mapError_eq_ok (hf.symm.trans hout))
  obtain ⟨compiled, hcompiled, rfl⟩ := map_eq_ok (mapError_eq_ok (hf₁.symm.trans hm))
  have hfile : x'.file = x.file := by rw [Load.file, Load.file, hu.path]
  have hmode' : i'.config.transpileOnly = i₁.config.transpileOnly := by
    rw [hbeside.config, hmode]
  rw [hr.file, hr.source] at hcompiled
  have hagain := hmatched.compile_again hmatched₁.left hoptions hstate hcompiled hdeps
  rw [hfile, hu.source, hmode', hagain] at hf'
  rw [hf', ← hcached]
  rfl

/-- A load that is served from the cache gives out the script and the source map that an
earlier load with the same key has given out, and depends on the same files as in the
build without the cache. If it repeats the earlier load, it gives out what it gives out
without the cache. All loads of both builds meet the conditions `Load.Runs`. -/
theorem served_as_uncached {xs xs' : List Load} {x x' : Load} {out : LoadedModule}
    (hdisk : OutputCache.Noted (fun _ _ ↦ False) d) (hxs : List.Forall₂ Load.Uncached xs xs')
    (hx : x.Uncached x') (hruns : Runs w home d { disk := d } (xs ++ [x]))
    (hruns' : Runs w home d { disk := d } (xs' ++ [x']))
    (hserved : (x.hit? (after { disk := d } xs)).isSome)
    (hout : (x.run (after { disk := d } xs)).result = .ok out) :
    (∀ out', (x'.run (after { disk := d } xs')).result = .ok out' →
      out'.dependencies = out.dependencies) ∧
    ∃ earlier y later m, xs = earlier ++ y :: later ∧
      let l := after { disk := d } earlier
      y.hit? l = none ∧ y.key? l = x.key? (after { disk := d } xs) ∧ (y.run l).result = .ok m ∧
        out.text = m.text ∧ out.sourceMap = m.sourceMap ∧
        (y.Repeats w l x (after { disk := d } xs) →
          (x'.run (after { disk := d } xs')).result = .ok out) := by
  obtain ⟨hruns, hrun⟩ := runs_append.1 hruns
  obtain ⟨hruns', hrun'⟩ := runs_append.1 hruns'
  have hstart := beside_empty w home d
  have hbeside := hstart.after hxs hruns hruns'
  obtain ⟨hit, hhit⟩ := Option.isSome_iff_exists.1 hserved
  refine ⟨fun out' hout' ↦ hbeside.dependencies hrun.1 hrun'.1 hx hhit hout hout', ?_⟩
  -- what is read from the cache has been compiled under this key
  have hnoted := noted_after [] hstart (hdisk.mono fun _ _ h ↦ h.elim) hxs hruns hruns'
  obtain ⟨i, hi, hget⟩ := Option.bind_eq_some_iff.1 hhit
  obtain ⟨cache, hcache, hget⟩ := Option.bind_eq_some_iff.1 hget
  obtain ⟨earlier, y, later, rfl, hmiss, hkey, m, hm, hcached⟩ :=
    OutputCache.noted_of_get? hnoted (CacheKey.plain_compute _ _ _) hget
  have hkey' : x.key? (after { disk := d } (earlier ++ y :: later)) =
      some (cacheKey i x.request) := by rw [Load.key?, hi, Option.map_some]
  obtain ⟨hearlier, hrest⟩ := runs_append.1 hruns
  -- the build without the cache up to that load
  have hfirst := List.forall₂_take_append xs' earlier (y :: later) hxs.flip
  obtain ⟨y', later', hy', -, hdrop⟩ := List.forall₂_cons_right_iff.1
    (List.forall₂_drop_append xs' earlier (y :: later) hxs.flip)
  have hsplit : xs' = xs'.take earlier.length ++ y' :: later' := by
    rw [← hdrop, List.take_append_drop]
  rw [hsplit] at hruns'
  obtain ⟨hearlier', hrest'⟩ := runs_append.1 hruns'
  have hbeside₁ := hstart.after hfirst.flip hearlier hearlier'
  obtain ⟨htext, hmap⟩ := hbeside.output hrun.1 hrun'.1 hx hhit hout
  rw [← hcached] at htext hmap
  refine ⟨earlier, y, later, m, rfl, hmiss, hkey.trans hkey'.symm, hm, htext, hmap, ?_⟩
  exact hbeside.repeated hrun.1 hrun'.1 hx hhit hout hbeside₁ hrest.1 hrest'.1 hy' hmiss hm hcached

end Loader

namespace Load

def plainConfig (useCache : Bool) : LoaderConfig := { useCache, transpileOnly := true }

def plain (useCache : Bool) (file : String) : Load where
  surroundings := .plain
  context := .top 0 "main"
  request := {
    path := ⟨file⟩
    source := "a"
    query := ""
    options := .obj [("useCache", .bool useCache), ("transpileOnly", .bool true)] }

variable {useCache : Bool} {file : String} {l : Loader} {i : Instance} {c : Compilation}

theorem config?_plain (useCache : Bool) (file : String) :
    (plain useCache file).config? = some (plainConfig useCache) := by
  cases useCache <;> rfl

def Bare (d : Disk) : Prop := d.isFile ⟨"/tsconfig.json"⟩ = false

theorem project_plain {d : Disk} (hd : Bare d) (useCache : Bool) :
    (plainConfig useCache).project d ⟨"/"⟩ = .ok ⟨[], none⟩ := by
  have hpath : (⟨"/"⟩ : Path).join ⟨(plainConfig useCache).projectFile⟩ = ⟨"/tsconfig.json"⟩ := by
    cases useCache <;> decide +kernel
  rw [LoaderConfig.project]
  simp only [hpath]
  rw [if_neg (by rw [Bare] at hd; rw [hd]; exact Bool.false_ne_true)]
  rfl

def plainCache : OutputCache := ⟨⟨"/.tsz-cache"⟩⟩

structure PlainInstance (useCache : Bool) (i : Instance) (c : Compilation) : Prop where
  config : i.config = plainConfig useCache
  alone : i.isForked = false
  identifier : i.identifier = Instance.identifierOf ⟨"plain", "1"⟩ []
  cache : i.cache = if useCache then some plainCache else none
  holds : i.Holds .within c
  unlinked : c.Unlinked
  options : c.options = []

theorem PlainInstance.name (h : PlainInstance useCache i c) : i.name = "default" := by
  rw [Instance.name, h.config]
  rfl

theorem runs_plain (hd : Bare l.disk)
    (hi : ∀ i, (plain useCache file).instance? l = some i → i.isForked = false) :
    (plain useCache file).Runs .plain .within {} l where
  world := rfl
  workers := rfl
  project config hconfig := by
    rw [config?_plain] at hconfig
    obtain rfl := Option.some.inj hconfig
    have hbare : Bare {} := by
      rw [Bare]
      decide +kernel
    exact (project_plain hd useCache).trans (project_plain hbare useCache).symm
  started config project hconfig hforked := by
    rw [config?_plain] at hconfig
    obtain rfl := Option.some.inj hconfig
    cases hforked
  asked i hsome hforked := by
    rw [hi i hsome] at hforked
    cases hforked

theorem ensure_plain (useCache : Bool) (file : String) (l : Loader) :
    (Loader.ensure (plain useCache file).surroundings (plain useCache file).context
      (plainConfig useCache) (plain useCache file).request.options).run l =
      (match l.instance? (.top 0 "main") "default" with
      | some i => pure i
      | none => do
        let i ← Loader.make .plain (plainConfig useCache) (plain useCache file).request.options
        Action.modify fun l ↦ { l.put (.top 0 "main") i with made := l.made + 1 }
        pure i : Loader.Act Instance).run l := rfl

theorem instance?_plain_of_found (h : l.instance? (.top 0 "main") "default" = some i)
    (useCache : Bool) (file : String) : (plain useCache file).instance? l = some i := by
  rw [instance?, config?_plain, Option.bind_some, ensure_plain, h]
  rfl

theorem instance?_plain_first (useCache : Bool) (file : String) :
    ∃ i c, (plain useCache file).instance? { disk := {} } = some i ∧
      PlainInstance useCache i c := by
  have hbare : Bare {} := by
    rw [Bare]
    decide +kernel
  have hfilter : Loader.filterFor? (Loader.setup .plain (plainConfig useCache) []
      (plain useCache file).request.options) = some { context := ⟨"/"⟩ } := rfl
  have hproject : (plainConfig useCache).project ({ disk := {} } : Loader).disk
      ((plainConfig useCache).context.getD Surroundings.plain.workingDirectory) = .ok ⟨[], none⟩ :=
    project_plain hbare useCache
  obtain ⟨hmake, -⟩ := Loader.run_make_here .plain (plain useCache file).request.options rfl
    hproject hfilter
  refine ⟨Loader.assemble .plain (plainConfig useCache) 0 [] { context := ⟨"/"⟩ } none,
    Compilation.make [] .sensitive, ?_, ⟨rfl, rfl, rfl, ?_, .here rfl rfl,
    Compilation.unlinked_make [] .sensitive, rfl⟩⟩
  · rw [instance?, config?_plain, Option.bind_some, ensure_plain, Loader.instance?_empty]
    simp only
    rw [Action.run_bind_of_ok hmake]
    rfl
  · have hdirectory : (⟨"/"⟩ : Path).join ⟨".tsz-cache"⟩ = ⟨"/.tsz-cache"⟩ := by decide +kernel
    cases useCache with
    | false => rfl
    | true => exact congrArg (fun directory ↦ some (OutputCache.mk directory)) hdirectory

section Running

variable (hl : l.Named) (hd : Bare l.disk) (hi : (plain useCache file).instance? l = some i)
  (h : PlainInstance useCache i c)

include hl hd hi h

theorem run_plain_compiled (hmiss : (plain useCache file).hit? l = none)
    (hfile : (⟨file⟩ : Path).normalize = ⟨file⟩) :
    ((plain useCache file).run l).result = .ok ⟨"a", some file, []⟩ ∧
      ∃ j c₁ l₁, PlainInstance useCache j c₁ ∧ Loader.Puts l (.top 0 "main") j l₁ ∧
        ((plain useCache file).run l).state =
          Loader.store i (plain useCache file).request ⟨"a", some file, []⟩ l₁ := by
  have hruns := runs_plain hd fun j hj ↦ Option.some.inj (hi.symm.trans hj) ▸ h.alone
  obtain ⟨⟨f, hf⟩, j, hsame, hholds, l₁, hputs, -, hdone⟩ := hruns.compiled hl hi h.holds hmiss
  have hpath : (plain useCache file).file = ⟨file⟩ := hfile
  have hmode : i.config.transpileOnly = true := by rw [h.config]; rfl
  have hscan : World.plain.compiler.scan "a" = {} := rfl
  have htranspile : World.plain.compiler.transpile "a" (⟨file⟩ : Path).normalize c.options =
      .ok { text := "a", sourceMap := some file } := by
    rw [hfile]
    rfl
  obtain ⟨hcompiled, hnext⟩ := h.unlinked.compile hscan htranspile
  have hoptions : ((Compilation.compile .plain ⟨file⟩ "a" true).run c).state.dropProgram.options =
      ((Compilation.sync .plain ⟨file⟩ "a").run c).state.dropProgram.options := by
    rw [(Compilation.run_compile .plain ⟨file⟩ "a" true c).2]
  have hoptions : ((Compilation.compile .plain ⟨file⟩ "a" true).run c).state.options = [] :=
    hoptions.trans ((Compilation.options_sync .plain ⟨file⟩ "a" c).trans h.options)
  rw [hpath, hmode] at hf hholds
  have hresult : ((plain useCache file).run l).result = .ok ⟨"a", some file, []⟩ := by
    rw [hf]
    have hsource : (plain useCache file).request.source = "a" := rfl
    rw [hsource, hcompiled]
    have hstrip : SourceMapLink.strip "a" = "a" := by decide
    have hmodule (output : Compiled) (houtput : output.text = "a") :
        LoadedModule.ofCompiled ⟨output, {}⟩ = ⟨"a", output.sourceMap, []⟩ := by
      rw [LoadedModule.ofCompiled, houtput, hstrip]
      rfl
    exact congrArg Except.ok (hmodule _ rfl)
  refine ⟨hresult, j, _, l₁, ⟨hsame.config.trans h.config, hsame.forked.trans h.alone,
    hsame.identifier.trans h.identifier, hsame.cache.trans h.cache, hholds, hnext, hoptions⟩, hputs,
    hdone _ hresult⟩

theorem run_plain_served {hit : CachedOutput} (hhit : (plain useCache file).hit? l = some hit) :
    ((plain useCache file).run l).result = .ok ⟨hit.text, hit.sourceMap, []⟩ := by
  have hruns := runs_plain hd fun j hj ↦ Option.some.inj (hi.symm.trans hj) ▸ h.alone
  obtain ⟨⟨f, hf⟩, -⟩ := hruns.served hl hi h.holds hhit
  have hscan : World.plain.compiler.scan "a" = {} := rfl
  obtain ⟨hregistered, -⟩ := h.unlinked.register (plain useCache file).file hscan
  have hsource : (plain useCache file).request.source = "a" := rfl
  rw [hf, hsource, hregistered]
  rfl

end Running

def plainKey : CacheKey := ⟨"6bf36d440b29a34ad523ff9ce44784c77906b80fd3985a6ae8c39d62c514953e"⟩

theorem cacheKey_plain (h : PlainInstance useCache i c) (file : String) :
    Loader.cacheKey i (plain useCache file).request = plainKey := by
  have hidentifier : Instance.identifierOf ⟨"plain", "1"⟩ [] = "plain@1|0.1.0|\x7b\x7d" := by
    decide +kernel
  rw [Loader.cacheKey, h.identifier, hidentifier]
  have hkey : CacheKey.compute "a" "plain@1|0.1.0|\x7b\x7d" "" = plainKey := by decide +kernel
  exact hkey

theorem get?_plain :
    let d := (plainCache.put {} plainKey ⟨"a", some "/a.ts"⟩).2
    plainCache.get? d plainKey = some ⟨"a", some "/a.ts"⟩ ∧ Bare d := by
  have h : let d := (plainCache.put {} plainKey ⟨"a", some "/a.ts"⟩).2
      (plainCache.get? d plainKey == some ⟨"a", some "/a.ts"⟩ && !d.isFile ⟨"/tsconfig.json"⟩) =
        true := by decide +kernel
  rw [Bool.and_eq_true, beq_iff_eq, Bool.not_eq_true'] at h
  exact h

theorem noted_empty : OutputCache.Noted (fun _ _ ↦ False) {} := by
  intro f hf
  cases hf

theorem hit?_plain_of_empty (hi : (plain useCache file).instance? { disk := {} } = some i) :
    (plain useCache file).hit? { disk := {} } = none := by
  rw [hit?, hi, Option.bind_some, Loader.cached?]
  cases hget : i.cache.bind fun cache ↦
    cache.get? {} (Loader.cacheKey i (plain useCache file).request) with
  | none => rfl
  | some hit =>
    obtain ⟨cache, -, hget⟩ := Option.bind_eq_some_iff.1 hget
    exact (OutputCache.noted_of_get? noted_empty (CacheKey.plain_compute _ _ _) hget).elim

theorem run_plain_first (useCache : Bool) (hfile : (⟨file⟩ : Path).normalize = ⟨file⟩) :
    let x := plain useCache file
    let l : Loader := { disk := {} }
    x.Runs .plain .within {} l ∧ (x.run l).result = .ok ⟨"a", some file, []⟩ ∧
      (x.run l).state.Named ∧ (∃ j c, (x.run l).state.instance? (.top 0 "main") "default" = some j ∧
        PlainInstance useCache j c) ∧
      (x.run l).state.disk =
        if useCache then (plainCache.put {} plainKey ⟨"a", some file⟩).2 else {} := by
  intro x l
  have hnamed : l.Named := (Loader.beside_empty .plain .within {}).left
  have hbare : Bare l.disk := by
    rw [Bare]
    decide +kernel
  obtain ⟨i, c, hi, h⟩ := instance?_plain_first useCache file
  obtain ⟨hresult, j, c₁, l₁, hj, hputs, hstate⟩ :=
    run_plain_compiled hnamed hbare hi h (hit?_plain_of_empty hi) hfile
  have hfound : l₁.instance? (.top 0 "main") "default" = some j := hj.name ▸ hputs.self
  have hinstance (ctx : BuildContext) (name : String) :
      (x.run l).state.instance? ctx name = l₁.instance? ctx name := by
    rw [hstate]
    exact Loader.instance?_store i _ _ l₁ ctx name
  refine ⟨runs_plain hbare fun k hk ↦ Option.some.inj (hi.symm.trans hk) ▸ h.alone, hresult, ?_,
    ⟨j, c₁, (hinstance _ _).trans hfound, hj⟩, ?_⟩
  · intro ctx name k hk
    exact hnamed.puts hputs ctx name k (hinstance ctx name ▸ hk)
  · have hcache := h.cache
    have hdisk : l₁.disk = {} := hputs.disk
    rw [hstate]
    cases useCache with
    | false =>
      rw [if_neg Bool.false_ne_true] at hcache ⊢
      rw [Loader.store, hcache]
      exact hdisk
    | true =>
      rw [if_pos rfl] at hcache ⊢
      have hcached : LoadedModule.toCached ⟨"a", some file, []⟩ = ⟨"a", some file⟩ := rfl
      rw [Loader.disk_store hcache, hdisk, cacheKey_plain h, hcached]

/-- The second of two loads of the same text. With the cache it is served what the first
one has given out; without it, its source map names its own file. -/
theorem run_plain_twice (file : String) (hfile : (⟨file⟩ : Path).normalize = ⟨file⟩) :
    let l (useCache : Bool) := Loader.after { disk := {} } [plain useCache "/a.ts"]
    (∀ useCache, Loader.Runs .plain .within {} { disk := {} }
      [plain useCache "/a.ts", plain useCache file]) ∧
    (∀ useCache, ∃ j c, (plain useCache file).instance? (l useCache) = some j ∧
      PlainInstance useCache j c) ∧
    (plain true file).hit? (l true) = some ⟨"a", some "/a.ts"⟩ ∧
    ((plain true file).run (l true)).result = .ok ⟨"a", some "/a.ts", []⟩ ∧
    ((plain false file).run (l false)).result = .ok ⟨"a", some file, []⟩ := by
  intro l
  have ha : (⟨"/a.ts"⟩ : Path).normalize = ⟨"/a.ts"⟩ := by decide +kernel
  have hl (useCache : Bool) :
      ((plain useCache "/a.ts").run { disk := {} }).state = l useCache := rfl
  have hbare (useCache : Bool) : Bare (l useCache).disk := by
    obtain ⟨-, -, -, -, hdisk⟩ := run_plain_first useCache ha
    rw [← hl, hdisk]
    cases useCache with
    | false =>
      rw [if_neg Bool.false_ne_true, Bare]
      decide +kernel
    | true =>
      rw [if_pos rfl]
      exact get?_plain.2
  have hfound (useCache : Bool) : ∃ j c, (plain useCache file).instance? (l useCache) = some j ∧
      PlainInstance useCache j c := by
    obtain ⟨-, -, -, ⟨j, c, hfound, hj⟩, -⟩ := run_plain_first useCache ha
    exact ⟨j, c, instance?_plain_of_found hfound useCache file, hj⟩
  refine ⟨fun useCache ↦ ?_, hfound, ?_⟩
  · obtain ⟨j, c, hi, hj⟩ := hfound useCache
    have hnext := runs_plain (hbare useCache) fun k hk ↦
      Option.some.inj (hi.symm.trans hk) ▸ hj.alone
    exact ⟨(run_plain_first useCache ha).1, hnext, trivial⟩
  obtain ⟨-, -, hnamed, -, hdisk⟩ := run_plain_first true ha
  obtain ⟨-, -, hnamed', -, -⟩ := run_plain_first false ha
  rw [hl] at hnamed hdisk hnamed'
  obtain ⟨j, c, hi, hj⟩ := hfound true
  obtain ⟨j', c', hi', hj'⟩ := hfound false
  have hhit : (plain true file).hit? (l true) = some ⟨"a", some "/a.ts"⟩ := by
    have hcache := hj.cache
    rw [if_pos rfl] at hcache
    rw [hit?, hi, Option.bind_some, Loader.cached?, hcache, Option.bind_some, cacheKey_plain hj,
      hdisk, if_pos rfl]
    exact get?_plain.1
  have hmiss : (plain false file).hit? (l false) = none :=
    Loader.hit?_of_beside hi' (hj'.cache.trans (if_neg Bool.false_ne_true))
  exact ⟨hhit, run_plain_served hnamed (hbare true) hi hj hhit,
    (run_plain_compiled hnamed' (hbare false) hi' hj' hmiss hfile).1⟩

theorem uncached_plain (file : String) : (plain true file).Uncached (plain false file) :=
  ⟨rfl, rfl, rfl, rfl, rfl⟩

/-- The second of two files with the same text is served with the source map of the
first. -/
theorem served_other_source_map :
    let l (useCache : Bool) := Loader.after { disk := {} } [plain useCache "/a.ts"]
    List.Forall₂ Uncached [plain true "/a.ts", plain true "/b.ts"]
        [plain false "/a.ts", plain false "/b.ts"] ∧
      (∀ useCache, Loader.Runs .plain .within {} { disk := {} }
        [plain useCache "/a.ts", plain useCache "/b.ts"]) ∧
      ((plain true "/b.ts").hit? (l true)).isSome ∧
      ((plain true "/b.ts").run (l true)).result = .ok ⟨"a", some "/a.ts", []⟩ ∧
      ((plain false "/b.ts").run (l false)).result = .ok ⟨"a", some "/b.ts", []⟩ := by
  obtain ⟨hruns, -, hhit, hserved, hcompiled⟩ := run_plain_twice "/b.ts" (by decide +kernel)
  exact ⟨.cons (uncached_plain _) (.cons (uncached_plain _) .nil), hruns,
    Option.isSome_iff_exists.2 ⟨_, hhit⟩, hserved, hcompiled⟩

/-- The second of two loads of one file is served what it is given without the cache. -/
theorem served_as_uncached_plain :
    let l (useCache : Bool) := Loader.after { disk := {} } [plain useCache "/a.ts"]
    ((plain true "/a.ts").hit? (l true)).isSome ∧
      ((plain true "/a.ts").run (l true)).result = .ok ⟨"a", some "/a.ts", []⟩ ∧
      ((plain false "/a.ts").run (l false)).result = .ok ⟨"a", some "/a.ts", []⟩ := by
  obtain ⟨hruns, hinstances, hhit, hserved, -⟩ := run_plain_twice "/a.ts" (by decide +kernel)
  have hsome := Option.isSome_iff_exists.2 ⟨_, hhit⟩
  obtain ⟨-, earlier, y, later, m, hsplit, -, -, -, -, -, hrepeats⟩ :=
    Loader.served_as_uncached noted_empty (.cons (uncached_plain "/a.ts") .nil)
      (uncached_plain "/a.ts") (hruns true) (hruns false) hsome hserved
  obtain ⟨rfl, rfl, rfl⟩ : earlier = [] ∧ y = plain true "/a.ts" ∧ later = [] := by
    cases earlier with
    | nil =>
      obtain ⟨rfl, rfl⟩ := List.cons.inj hsplit
      exact ⟨rfl, rfl, rfl⟩
    | cons z earlier =>
      obtain ⟨-, hnil⟩ := List.cons.inj hsplit
      simp at hnil
  refine ⟨hsome, hserved, hrepeats ⟨rfl, rfl, ?_⟩⟩
  obtain ⟨i, c, hi, h⟩ := instance?_plain_first true "/a.ts"
  obtain ⟨j, c', hj, h'⟩ := hinstances true
  refine ⟨i, j, c, c', hi, hj, h.holds.held?, h'.holds.held?, ?_,
    h.options.trans h'.options.symm, ?_⟩
  · rw [h.config, h'.config]
  · intro hmode
    rw [h.config] at hmode
    cases hmode

end Load

end TypedLoader
