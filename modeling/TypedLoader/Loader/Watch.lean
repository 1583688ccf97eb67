import TypedLoader.Loader.Basic

namespace TypedLoader

structure PassReport where
  errors : List Report := []
  warnings : List Report := []
  dependencies : List Path := []
  modules : List Path := []
  messages : List String := []
deriving Inhabited

namespace PassReport

/-- Adds files to watch: those that are neither modules nor listed already. -/
def watch (r : PassReport) (files : List Path) : PassReport :=
  files.foldl
    (fun r file ↦
      let file := file.normalize
      if (r.modules.map Path.normalize).contains file ||
          (r.dependencies.map Path.normalize).contains file then r
      else { r with dependencies := r.dependencies ++ [file] })
    r

def runMessages (forked : Bool) (errors time : Nat) : List String :=
  (if forked then ["[tsz-loader] Checking started in a separate process..."] else []) ++
    ["[tsz-loader] Checking finished with " ++ toString errors ++ " errors",
      "[tsz-loader] Time: " ++ toString time ++ "ms"]

def countErrors (reports : List Report) : Nat := (reports.filter Report.isError).length

def addRun (i : Instance) (time : Nat) (reports : List Report) (r : PassReport) : PassReport :=
  let isError (d : Report) := d.isError && !i.config.errorsAsWarnings
  { r with
    errors := r.errors ++ reports.filter isError
    warnings := r.warnings ++ reports.filter (!isError ·)
    messages := r.messages ++
      if i.config.silent then [] else runMessages i.isForked (countErrors reports) time }

end PassReport

def Instance.bailReason? (i : Instance) (reports : List Report) : Option String :=
  let errors := PassReport.countErrors reports
  if i.config.bail && !i.config.errorsAsWarnings && errors > 0 then
    some (toString errors ++ " type errors in instance '" ++ i.name ++ "'")
  else none

namespace Loader

variable {α : Type}

def refreshInstances (s : Surroundings) (ctx : BuildContext) (changed : List Path)
    (instances : List Instance) : Act Unit :=
  instances.forM fun i ↦ within ctx i (Instance.filesChanged s changed)

def beforePass (s : Surroundings) (ctx : BuildContext) (changed : List Path) : Act Unit := do
  let l ← Action.get
  if changed.isEmpty then pure () else refreshInstances s ctx changed (l.instances ctx)

/-- Actions that add to a report. What they added before they failed stays. -/
abbrev PassAct (α : Type) := Action (Loader × PassReport) LoadError α

def onLoader (a : Act α) : PassAct α := a.within Prod.fst fun l p ↦ (l, p.2)

def onReport (f : PassReport → PassReport) : PassAct Unit := Action.modify fun p ↦ (p.1, f p.2)

def reportInstance (s : Surroundings) (ctx : BuildContext) (i : Instance) :
    PassAct (Option String) := do
  let files ← onLoader (within ctx i (Instance.knownFiles s))
  onReport (·.watch files)
  match ← onLoader (within ctx i (Instance.freshDiagnostics s)) with
  | none => pure none
  | some reports =>
    onReport (PassReport.addRun i (i.startTime s - s.now) reports)
    pure (i.bailReason? reports)

def reportInstances (s : Surroundings) (ctx : BuildContext) :
    List Instance → PassAct (Option String)
  | [] => pure none
  | i :: rest => do
    let reason ← reportInstance s ctx i
    let later ← reportInstances s ctx rest
    pure (reason.or later)

def afterPass (s : Surroundings) (ctx : BuildContext) : PassAct Unit := do
  let l ← onLoader Action.get
  match ← reportInstances s ctx (l.instances ctx) with
  | none => pure ()
  | some reason => Action.fail (.bail none reason)

end Loader

end TypedLoader
