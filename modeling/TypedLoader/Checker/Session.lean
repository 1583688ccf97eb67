import TypedLoader.Checker.Findings
import TypedLoader.Checker.Response
import TypedLoader.CompiledModule

namespace TypedLoader

structure Session.Started where
  compilation : Compilation
  settings : CheckerSettings
  filter : DiagnosticFilter

structure Session where
  started : Option Session.Started := none

namespace Session

abbrev Act (α : Type) := Action Session CheckError α

/-- Runs an action of the compilation in a session that has been set up. -/
def onCompilation {α : Type} (a : Started → Action Compilation CheckError α) : Act α := fun s ↦
  match s.started with
  | none => ⟨.error .notInitialized, s, []⟩
  | some t =>
    match a t t.compilation with
    | ⟨r, compilation, calls⟩ => ⟨r, ⟨some { t with compilation }⟩, calls⟩

def init (w : World) (setup : Setup) : Act Json :=
  let settings := setup.settings
  match DiagnosticFilter.make? (Json.Object.flag setup.options "skipLibCheck") settings.reported
      settings.ignored settings.context with
  | none => Action.fail .badPattern
  | some filter => do
    let case := settings.case.getD w.defaultCase
    Action.set ⟨some ⟨Compilation.make setup.options case, settings, filter⟩⟩
    pure .null

def updateFile (file : Path) (text : String) (onlyKnown : Bool) : Compilation → Compilation :=
  fun c ↦
    if onlyKnown && !c.has file then c
    else
      let (stored, c) := c.update file text true
      if stored then (c.invalidate file).dropProgram else c

def removeFile (file : Path) (c : Compilation) : Compilation :=
  let (removed, c) := c.remove file
  if removed then c.dropProgram else c

/-- Answers a request. Paths are text, also those that names resolve to, so that every reply can be
written; about another path a request would fail after it has changed the session. -/
def handle (w : World) : Request → Act Json
  | .init setup => init w setup
  | .updateFile file text onlyKnown => onCompilation fun _ ↦ do
    Action.modify (updateFile file text onlyKnown)
    pure .null
  | .removeFile file => onCompilation fun _ ↦ do
    Action.modify (removeFile file)
    pure .null
  | .emitFile file text => onCompilation fun t ↦ do
    let m ← (Compilation.compile w file text t.settings.transpileOnly).mapError CheckError.compile
    pure (EmitReply.ofCompiled file m.output m.deps).toJson
  | .registerFile file text => onCompilation fun _ ↦ do
    let deps ← (Compilation.register w file text).mapError CheckError.compile
    pure deps.toJson
  | .diagnostics => onCompilation fun t ↦ do
    let reports ← Compilation.reports w t.filter t.settings.context
    pure (.arr (reports.map Report.toJson))
  | .files => onCompilation fun _ ↦ do
    let c ← Action.get
    pure (Json.strings (c.files.paths.map (·.text)))

def answer (w : World) (e : RequestEnvelope) (s : Session) : Response × Session × List Call :=
  match e.request? with
  | none => (Response.error e.seq .malformed, s, [])
  | some request =>
    let o := (handle w request).run s
    (Response.ofResult e.seq o.result, o.state, o.calls)

end Session

end TypedLoader
