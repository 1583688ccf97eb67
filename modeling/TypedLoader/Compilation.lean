import TypedLoader.Analysis
import TypedLoader.Dependencies.Graph
import TypedLoader.Text.Blank

namespace TypedLoader

/-- A program, and the versions of the store it was built from. -/
structure BuiltProgram where
  projectVersion : Nat
  generation : Nat
  program : Program

/-- The stored files, what is known of their dependencies, and the program last built from them.
What an operation has found before it failed stays. -/
structure Compilation where
  options : Json.Object
  files : FileStore
  deps : Dependencies
  marks : Marks := ∅
  built : Option BuiltProgram := none

/-- What an analysis did. When new files were stored the program has to be
built again. -/
structure Analysed where
  changed : Bool
  files : List Path

namespace Compilation

def make (options : Json.Object) (case : PathCase) : Compilation :=
  { options, files := { case }, deps := { case } }

abbrev Act (α : Type) := Action Compilation CompileError α

def add (c : Compilation) (p : Path) (text : String) : Compilation :=
  { c with files := c.files.add p text }

def update (c : Compilation) (p : Path) (text : String) (checked : Bool) : Bool × Compilation :=
  let (stored, files) := c.files.update p text checked
  (stored, { c with files })

def has (c : Compilation) (p : Path) : Bool := c.files.has p

def get? (c : Compilation) (p : Path) : Option SourceFile := c.files.get? p

def validity? (c : Compilation) (p : Path) : Option Validity := c.marks[c.files.key p]?

def isValid (c : Compilation) (p : Path) : Bool := Analysis.isValid c.marks (c.files.key p)

def invalidate (c : Compilation) (p : Path) : Compilation :=
  { c with marks := c.marks.insert (c.files.key p) .invalid }

def forget (c : Compilation) (p : Path) : Compilation :=
  { c with marks := c.marks.erase (c.files.key p), deps := c.deps.remove p }

def remove (c : Compilation) (p : Path) : Bool × Compilation :=
  let c := c.forget p
  let (removed, files) := c.files.remove p
  (removed.isSome, { c with files })

/-- Moves a file with its versions; at its new path it is to be analysed. -/
def rename (c : Compilation) (source target : Path) : Bool × Compilation :=
  let (moved, files) := c.files.rename source target
  if moved then (true, ({ c with files }.forget source).invalidate target) else (false, c)

def fetch (w : World) (p : Path) : Act Bool := do
  Action.call (.read p)
  match w.files.read p with
  | .error cause => Action.fail (.unreadable p cause)
  | .ok text => Action.update fun c ↦ c.update p text true

def check (w : World) (p : Path) : Act Analysed := fun c ↦
  let walk := Analysis.Walk.run w c.options
    { files := c.files, deps := c.deps, marks := c.marks, queue := [p.normalize] }
  let c := { c with
    files := walk.state.files, deps := walk.state.deps, marks := walk.state.marks }
  match walk.result with
  | .ok () => ⟨.ok ⟨walk.state.changed, walk.state.analyzed⟩, c, walk.calls⟩
  | .error e => ⟨.error e, c, walk.calls⟩

def onDeps {α : Type} (a : Action Dependencies CompileError α) : Act α :=
  a.within Compilation.deps fun deps c ↦ { c with deps }

def resolveModule (w : World) (p : Path) (name : String) : Act (Option ResolvedModule) := do
  let c ← Action.get
  onDeps (Analysis.resolveModule w c.options p name)

def resolveTypes (w : World) (p : Path) (name : String) : Act (Option ResolvedTypes) := do
  let c ← Action.get
  onDeps (Analysis.resolveTypes w c.options p name)

def dependencies (c : Compilation) (p : Path) : List Path := c.deps.transitive p.normalize

def host (c : Compilation) : Host where
  projectVersion := c.files.projectVersion
  fileNames := c.files.paths
  version p := (c.files.get? p).map (·.version)
  snapshot p := (c.files.get? p).map (·.text)
  options := c.options

def dropProgram (c : Compilation) : Compilation := { c with built := none }

def current? (c : Compilation) : Option Program :=
  c.built.bind fun b ↦
    if b.projectVersion = c.files.projectVersion ∧ b.generation = c.files.generation then
      some b.program
    else none

def program (w : World) : Act Program := do
  let c ← Action.get
  match c.current? with
  | some program => pure program
  | none =>
    match w.compiler.build c.host with
    | .error reason =>
      Action.call (.build false)
      Action.fail (.compiler reason)
    | .ok program =>
      Action.call (.build true)
      Action.set { c with built := some ⟨c.files.projectVersion, c.files.generation, program⟩ }
      pure program

/-- What the compiler emits for a file. A program that does not contain the
file is built once more. -/
def emitOutput (w : World) (p : Path) : Act EmitOutput := do
  let p := p.normalize
  let first ← program w
  let latest ←
    if first.contains p then pure first
    else do
      Action.modify dropProgram
      program w
  if latest.contains p then
    match latest.emit p with
    | .ok output => pure output
    | .error reason => Action.fail (.compiler reason)
  else Action.fail (.noOutput p)

def emit (w : World) (p : Path) : Act Compiled := do
  let output ← emitOutput w p
  if output.skipped then Action.fail (.skipped p.normalize)
  else
    match output.script? with
    | none => Action.fail (.noOutput p.normalize)
    | some script => pure { text := script.text, sourceMap := output.sourceMap?.map (·.text) }

def transpile (w : World) (p : Path) : Act Compiled := do
  let c ← Action.get
  match c.get? p with
  | none => Action.fail (.noOutput p.normalize)
  | some file =>
    match w.compiler.transpile file.text file.path c.options with
    | .error reason =>
      Action.call (.transpile file.path false)
      Action.fail (.compiler reason)
    | .ok t =>
      Action.call (.transpile file.path true)
      pure { text := t.text, sourceMap := t.sourceMap, fast := true, diagnostics := t.diagnostics }

def isBlank (c : Compilation) (p : Path) : Bool :=
  match c.get? p with
  | none => true
  | some file => Text.allBlank file.text

/-- The script of a file: emitted, or made from its text where nothing was
emitted. An empty script for a text that is not blank counts as nothing. -/
def emitOrTranspile (w : World) (p : Path) (transpileOnly : Bool) : Act Compiled := do
  if transpileOnly then transpile w p
  else
    match ← (emit w p).attempt with
    | .ok compiled => pure compiled
    | .error e =>
      if e.isMissingOutput then
        let fast ← transpile w p
        let c ← Action.get
        if fast.text.isEmpty && !c.isBlank p then Action.fail e else pure fast
      else Action.fail e

def sync (w : World) (p : Path) (text : String) : Act Unit := do
  let stored ← Action.update fun c ↦ c.update p text true
  if stored then Action.modify fun c ↦ c.invalidate p
  let analysed ← check w p
  if analysed.changed then Action.modify dropProgram

/-- Brings a stored file in line with the file system, and analyses it again if
its text is new. A file that cannot be read is removed. Tells whether something
changed. -/
def refresh (w : World) (p : Path) : Act Bool := do
  Action.modify fun c ↦ c.invalidate p
  let c ← Action.get
  if c.has p then
    match ← (fetch w p).attempt with
    | .ok true =>
      let _ ← (check w p).attempt
      pure true
    | .ok false => pure false
    | .error _ => Action.update fun c ↦ c.remove p
  else pure false

def refreshAll (w : World) : List Path → Act Bool
  | [] => pure false
  | p :: rest => do
    let first ← refresh w p
    let others ← refreshAll w rest
    pure (first || others)

end Compilation

end TypedLoader
