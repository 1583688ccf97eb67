import TypedLoader.Analysis
import TypedLoader.ScriptedCompiler.Scan
import TypedLoader.ScriptedCompiler.Script
import TypedLoader.Json.Printer

namespace TypedLoader.ScriptedCompiler

def info : CompilerInfo := ⟨"scripted", "0.0.0"⟩

def scriptExtensions : List String := ["ts", "tsx", "js", "jsx", "mts", "cts"]

def hasScriptExtension (p : Path) : Bool :=
  match p.extension? with
  | some extension => scriptExtensions.contains extension
  | none => false

def firstExisting (m : MemoryFiles) (candidates : List Path) : Option Path :=
  (candidates.map Path.normalize).find? m.contains

def searchPackages (m : MemoryFiles) (file : Path) (relative : List String) : Option Path :=
  file.parents.findSome? fun directory ↦
    firstExisting m (relative.map fun r ↦ (directory.join "node_modules").join ⟨r⟩)

def isRelative (name : String) : Bool :=
  name.startsWith "./" || name.startsWith "../" || name.startsWith "/"

def failure (name : String) : String := "resolver failure for '" ++ name ++ "'"

def resolveModule (s : Script) (m : MemoryFiles) (name : String) (file : Path) :
    Except String (Option ResolvedModule) :=
  if s.failing.contains name then .error (failure name)
  else
    match s.modules.lookup name with
    | some target => .ok (some ⟨target, true⟩)
    | none =>
      if isRelative name then
        let base := match file.parent? with
          | some directory => directory.join ⟨name⟩
          | none => ⟨name⟩
        let candidates :=
          if hasScriptExtension base then [base]
          else [base.withSuffix ".ts", base.withSuffix ".tsx", base.withSuffix ".d.ts",
            base.join "index.ts", base.join "index.d.ts"]
        .ok ((firstExisting m candidates).map fun p ↦ ⟨p, false⟩)
      else
        let found := searchPackages m file
          [name ++ "/index.d.ts", name ++ ".d.ts", "@types/" ++ name ++ "/index.d.ts"]
        .ok (found.map fun p ↦ ⟨p, true⟩)

def resolveTypes (s : Script) (m : MemoryFiles) (name : String) (file : Path) :
    Except String (Option ResolvedTypes) :=
  if s.failing.contains name then .error (failure name)
  else
    match s.types.lookup name with
    | some target => .ok (some ⟨target, true⟩)
    | none =>
      .ok ((searchPackages m file ["@types/" ++ name ++ "/index.d.ts"]).map fun p ↦ ⟨p, true⟩)

def sourceMap (file : Path) : String :=
  (Json.obj [("version", .nat 3), ("sources", .arr [.str file.text]), ("names", .arr []),
    ("mappings", .str "")]).text

def emit (s : Script) (files : List (Path × String)) (file : Path) : EmitOutput :=
  match files.lookup file with
  | none => {}
  | some text =>
    if s.skipped.contains file || file.isDeclaration then { skipped := true }
    else if s.withoutOutput.contains file then {}
    else
      let script := file.withExtension "js"
      let map := script.withSuffix ".map"
      { files := [
          ⟨script, text ++ "\n//# sourceMappingURL=" ++ map.fileName?.getD "", false⟩,
          ⟨map, sourceMap file, false⟩] }

def findings (rules : List Rule) (files : List (Path × String)) (file : Path) : List Diagnostic :=
  match files.lookup file with
  | none => []
  | some text => rules.flatMap fun r ↦ r.findings file text

def programFiles (s : Script) (host : Host) : List (Path × String) :=
  host.fileNames.filterMap fun name ↦
    let name := name.normalize
    if s.excluded.contains name then none else (host.snapshot name).map (name, ·)

def program (s : Script) (host : Host) : Program :=
  let files := programFiles s host
  { sourceFiles := Path.sort (files.map (·.1)).eraseDups
    contains := fun p ↦ (files.lookup p.normalize).isSome
    emit := fun p ↦ .ok (emit s files p.normalize)
    optionsDiagnostics := s.optionsDiagnostics
    globalDiagnostics := s.globalDiagnostics
    syntacticDiagnostics := fun p ↦ findings s.syntactic files p.normalize
    semanticDiagnostics := fun p ↦ findings s.semantic files p.normalize }

def compiler (s : Script) (m : MemoryFiles) : Compiler where
  info := info
  scan := scan
  resolveModule name file _ := resolveModule s m name file
  resolveTypes name file _ := resolveTypes s m name file
  build host :=
    match s.buildFailure with
    | some reason => .error reason
    | none => .ok (program s host)
  transpile text file _ :=
    match s.transpileFailure with
    | some reason => .error reason
    | none => .ok {
        text := if s.emptyTranspile then "" else text
        sourceMap := some (sourceMap file) }

/-- A compiler that does what a script says, over files in memory. -/
def world (s : Script) (m : MemoryFiles) : World :=
  { compiler := compiler s m, files := m.toFileSystem }

end TypedLoader.ScriptedCompiler
