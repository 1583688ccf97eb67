import TypedLoader.Checker.Request
import TypedLoader.Checker.Sender
import TypedLoader.Config.Query

namespace TypedLoader

structure LoaderConfig where
  /-- Modules that name the same instance share one compilation. -/
  instanceName : String := "default"
  /-- The directory that other paths are relative to; without it the working
  directory. -/
  context : Option Path := none
  projectFile : String := "tsconfig.json"
  compilerOptions : Json.Object := []
  transpileOnly : Bool := false
  forkChecker : Bool := false
  checkerCommand : Option Path := none
  checkerArguments : List String := []
  sendPolicy : SendPolicy := .direct
  useCache : Bool := false
  cacheDirectory : Path := ⟨".tsz-cache"⟩
  useBabel : Bool := false
  babelOptions : Json := .null
  ignored : List Nat := []
  reported : List String := []
  errorsAsWarnings : Bool := false
  silent : Bool := false
  bail : Bool := false
  debounceMs : Nat := 100
  case : Option PathCase := none
deriving Inhabited

namespace LoaderConfig

def fieldNames : List (List String) :=
  [["instance"], ["context"], ["configFileName"], ["compilerOptions"],
    ["transpileOnly", "useTranspileModule"], ["forkChecker"], ["checkerCommand"],
    ["checkerArgs"], ["sendPolicy"], ["useCache"], ["cacheDirectory"], ["useBabel"],
    ["babelOptions"], ["ignoreDiagnostics"], ["reportFiles"], ["errorsAsWarnings"], ["silent"],
    ["bail"], ["debounceMs"], ["pathCase"]]

def path? (j : Json) : Option Path := j.string?.map Path.mk

/-- The configuration that options describe; what they leave out has its
default. -/
def ofObject? (options : Json.Object) : Option LoaderConfig := do
  let d : LoaderConfig := {}
  match ← Json.slots? fieldNames options with
  | [instanceName, context, projectFile, compilerOptions, transpileOnly, forkChecker,
      checkerCommand, checkerArguments, sendPolicy, useCache, cacheDirectory, useBabel,
      babelOptions, ignored, reported, errorsAsWarnings, silent, bail, debounceMs, case] =>
    return {
      instanceName := ← Json.default d.instanceName Json.string? instanceName
      context := ← Json.default d.context (Json.option? path?) context
      projectFile := ← Json.default d.projectFile Json.string? projectFile
      compilerOptions := ← Json.default d.compilerOptions Json.object? compilerOptions
      transpileOnly := ← Json.default d.transpileOnly Json.bool? transpileOnly
      forkChecker := ← Json.default d.forkChecker Json.bool? forkChecker
      checkerCommand := ← Json.default d.checkerCommand (Json.option? path?) checkerCommand
      checkerArguments := ← Json.default d.checkerArguments (Json.list? Json.string?)
        checkerArguments
      sendPolicy := ← Json.default d.sendPolicy (Json.variant? SendPolicy.names) sendPolicy
      useCache := ← Json.default d.useCache Json.bool? useCache
      cacheDirectory := ← Json.default d.cacheDirectory path? cacheDirectory
      useBabel := ← Json.default d.useBabel Json.bool? useBabel
      babelOptions := babelOptions.getD d.babelOptions
      ignored := ← Json.default d.ignored (Json.list? (Json.natBelow? UInt32.size)) ignored
      reported := ← Json.default d.reported (Json.list? Json.string?) reported
      errorsAsWarnings := ← Json.default d.errorsAsWarnings Json.bool? errorsAsWarnings
      silent := ← Json.default d.silent Json.bool? silent
      bail := ← Json.default d.bail Json.bool? bail
      debounceMs := ← Json.default d.debounceMs (Json.natBelow? UInt64.size) debounceMs
      case := ← Json.default d.case (Json.option? (Json.variant? PathCase.names)) case }
  | _ => none

def toJson (c : LoaderConfig) : Json :=
  .obj [("instance", .str c.instanceName),
    ("context", Json.ofOption (fun (p : Path) ↦ .str p.text) c.context),
    ("configFileName", .str c.projectFile),
    ("compilerOptions", .obj c.compilerOptions),
    ("transpileOnly", .bool c.transpileOnly),
    ("forkChecker", .bool c.forkChecker),
    ("checkerCommand", Json.ofOption (fun (p : Path) ↦ .str p.text) c.checkerCommand),
    ("checkerArgs", Json.strings c.checkerArguments),
    ("sendPolicy", .str c.sendPolicy.name),
    ("useCache", .bool c.useCache),
    ("cacheDirectory", .str c.cacheDirectory.text),
    ("useBabel", .bool c.useBabel),
    ("babelOptions", c.babelOptions),
    ("ignoreDiagnostics", .arr (c.ignored.map .nat)),
    ("reportFiles", Json.strings c.reported),
    ("errorsAsWarnings", .bool c.errorsAsWarnings),
    ("silent", .bool c.silent),
    ("bail", .bool c.bail),
    ("debounceMs", .nat c.debounceMs),
    ("pathCase", Json.ofOption (fun (k : PathCase) ↦ .str k.name) c.case)]

def compilerOptionsKey : String := "compilerOptions"

/-- Sets an option. Compiler options are merged key by key where both layers
have them. -/
def overlay (options : Json.Object) (key : String) (value : Json) : Json.Object :=
  match value, options.get? key with
  | .obj upper, some (.obj base) =>
    if key = compilerOptionsKey then options.insert key (.obj (Json.Object.merge base upper))
    else options.insert key value
  | _, _ => options.insert key value

def optionsObject (options : Json) : Except ConfigError Json.Object :=
  match options with
  | .null => .ok []
  | .obj members => .ok members
  | other => .error (.notAnObject other)

/-- The configuration of a request: its query over the registered options. -/
def resolve (options : Json) (query : String) : Except ConfigError LoaderConfig := do
  let base ← optionsObject options
  let query ← Query.read query
  match ofObject? (query.foldl (fun o (key, value) ↦ overlay o key value) base) with
  | some config => .ok config
  | none => .error .badOptions

def checkerSettings (c : LoaderConfig) (context : Path) : CheckerSettings where
  transpileOnly := c.transpileOnly
  ignored := c.ignored
  reported := c.reported
  context := context
  case := c.case

end LoaderConfig

end TypedLoader
