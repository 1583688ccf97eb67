import TypedLoader.Loader.Basic
import TypedLoader.SourceMapLink

namespace TypedLoader

structure ModuleRequest where
  path : Path
  source : String
  query : String
  options : Json
deriving Inhabited

structure LoadedModule where
  text : String
  sourceMap : Option String
  dependencies : List Path
deriving DecidableEq, Inhabited

namespace LoadedModule

/-- The link to the source map is left out, since the map is given beside the
text. -/
def ofCompiled (m : CompiledModule) : LoadedModule where
  text := SourceMapLink.strip m.output.text
  sourceMap := m.output.sourceMap
  dependencies := m.deps.all

def ofCached (o : CachedOutput) (deps : FileDeps) : LoadedModule where
  text := o.text
  sourceMap := o.sourceMap
  dependencies := deps.all

def toCached (m : LoadedModule) : CachedOutput := ⟨m.text, m.sourceMap⟩

end LoadedModule

namespace Loader

def cacheKey (i : Instance) (m : ModuleRequest) : CacheKey :=
  CacheKey.compute m.source i.identifier m.query

def cached? (i : Instance) (m : ModuleRequest) (l : Loader) : Option CachedOutput :=
  i.cache.bind fun cache ↦ cache.get? l.disk (cacheKey i m)

/-- Keeps a loaded module, if the instance has a cache. It does not matter
whether it could be written. -/
def store (i : Instance) (m : ModuleRequest) (loaded : LoadedModule) (l : Loader) : Loader :=
  match i.cache with
  | none => l
  | some cache => { l with disk := (cache.put l.disk (cacheKey i m) loaded.toCached).2 }

def compile (s : Surroundings) (ctx : BuildContext) (i : Instance) (file : Path) (text : String) :
    Act CompiledModule := do
  match ← (within ctx i (Instance.compile s file text)).attempt with
  | .error (.checker .exited) =>
    resetChecker s ctx i
    within ctx i (Instance.compile s file text)
  | r => Action.ofExcept r

/-- A module without output stops the build of an instance that asks for it. -/
def bailed (i : Instance) (file : Path) (e : LoadError) : LoadError :=
  if e.isMissingOutput && i.config.bail then .bail (some file) e.message else e

def load (s : Surroundings) (ctx : BuildContext) (m : ModuleRequest) : Act LoadedModule := do
  let config ← Action.ofExcept ((LoaderConfig.resolve m.options m.query).mapError .config)
  let i ← ensure s ctx config m.options
  let file := m.path.normalize
  let l ← Action.get
  match cached? i m l with
  | some hit =>
    let deps ← within ctx i (Instance.register s file m.source)
    within ctx i (Instance.notify s)
    pure (LoadedModule.ofCached hit deps)
  | none =>
    let compiled ← (compile s ctx i file m.source).mapError (bailed i file)
    within ctx i (Instance.notify s)
    let loaded := LoadedModule.ofCompiled compiled
    Action.modify (store i m loaded)
    pure loaded

end Loader

end TypedLoader
