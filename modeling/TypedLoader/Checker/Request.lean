import TypedLoader.Checker.Error
import TypedLoader.Compiler.Basic
import TypedLoader.Json.Reader
import TypedLoader.Json.Printer
import TypedLoader.Path.Case

namespace TypedLoader

structure CheckerSettings where
  transpileOnly : Bool := false
  ignored : List Nat := []
  reported : List String := []
  context : Path := ⟨""⟩
  case : Option PathCase := none
deriving DecidableEq, Inhabited

structure Setup where
  compiler : CompilerInfo
  settings : CheckerSettings
  options : Json.Object
  bundler : Json := .null
deriving Inhabited

inductive Request where
  | init (setup : Setup)
  | updateFile (file : Path) (text : String) (onlyKnown : Bool)
  | removeFile (file : Path)
  | emitFile (file : Path) (text : String)
  | registerFile (file : Path) (text : String)
  | diagnostics
  | files
deriving Inhabited

inductive RequestKind where
  | init
  | updateFile
  | removeFile
  | emitFile
  | registerFile
  | diagnostics
  | files
deriving DecidableEq, Inhabited

namespace RequestKind

def name : RequestKind → String
  | init => "Init"
  | updateFile => "UpdateFile"
  | removeFile => "RemoveFile"
  | emitFile => "EmitFile"
  | registerFile => "RegisterFile"
  | diagnostics => "Diagnostics"
  | files => "Files"

def names : List (String × RequestKind) :=
  [init, updateFile, removeFile, emitFile, registerFile, diagnostics, files].map fun k ↦
    (k.name, k)

end RequestKind

namespace CheckerSettings

def toJson (s : CheckerSettings) : Json :=
  .obj [("transpileOnly", .bool s.transpileOnly),
    ("ignoreDiagnostics", .arr (s.ignored.map .nat)),
    ("reportFiles", Json.strings s.reported),
    ("context", .str s.context.text),
    ("pathCase", Json.ofOption (fun c ↦ .str c.name) s.case)]

def fieldNames : List (List String) :=
  [["transpileOnly"], ["ignoreDiagnostics"], ["reportFiles"], ["context"], ["pathCase"]]

def ofJson? (j : Json) : Option CheckerSettings := do
  match ← j.fields? fieldNames with
  | [transpileOnly, ignored, reported, context, case] =>
    return {
      transpileOnly := ← Json.default false Json.bool? transpileOnly
      ignored := ← Json.default [] (Json.list? (Json.natBelow? UInt32.size)) ignored
      reported := ← Json.default [] (Json.list? Json.string?) reported
      context := ⟨← Json.default "" Json.string? context⟩
      case := ← Json.default none (Json.option? (Json.variant? PathCase.names)) case }
  | _ => none

end CheckerSettings

def CompilerInfo.toJson (i : CompilerInfo) : Json :=
  .obj [("name", .str i.name), ("version", .str i.version)]

def CompilerInfo.ofJson? (j : Json) : Option CompilerInfo := do
  match ← j.fields? [["name"], ["version"]] with
  | [name, version] =>
    return ⟨← Json.required Json.string? name, ← Json.required Json.string? version⟩
  | _ => none

def Setup.toJson (s : Setup) : Json :=
  .obj [("compilerInfo", s.compiler.toJson), ("loaderConfig", s.settings.toJson),
    ("compilerConfig", .obj s.options), ("webpackOptions", s.bundler)]

def Setup.ofJson? (j : Json) : Option Setup := do
  match ← j.fields? [["compilerInfo"], ["loaderConfig"], ["compilerConfig"],
      ["webpackOptions"]] with
  | [compiler, settings, options, bundler] =>
    return {
      compiler := ← Json.required CompilerInfo.ofJson? compiler
      settings := ← Json.required CheckerSettings.ofJson? settings
      options := ← Json.required Json.object? options
      bundler := bundler.getD .null }
  | _ => none

namespace Request

def kind : Request → RequestKind
  | init _ => .init
  | updateFile .. => .updateFile
  | removeFile _ => .removeFile
  | emitFile .. => .emitFile
  | registerFile .. => .registerFile
  | diagnostics => .diagnostics
  | files => .files

def payload : Request → Json
  | init setup => setup.toJson
  | updateFile file text onlyKnown =>
    .obj [("fileName", .str file.text), ("text", .str text), ("ifExistOnly", .bool onlyKnown)]
  | removeFile file => .obj [("fileName", .str file.text)]
  | emitFile file text => .obj [("fileName", .str file.text), ("text", .str text)]
  | registerFile file text => .obj [("fileName", .str file.text), ("text", .str text)]
  | diagnostics => .null
  | files => .null

def fileText? (j : Json) : Option (Path × String) := do
  match ← j.fields? [["fileName"], ["text"]] with
  | [file, text] => return (⟨← Json.required Json.string? file⟩, ← Json.required Json.string? text)
  | _ => none

def updateFile? (j : Json) : Option Request := do
  match ← j.fields? [["fileName"], ["text"], ["ifExistOnly"]] with
  | [file, text, onlyKnown] =>
    return .updateFile ⟨← Json.required Json.string? file⟩ (← Json.required Json.string? text)
      (← Json.default false Json.bool? onlyKnown)
  | _ => none

def removeFile? (j : Json) : Option Request := do
  match ← j.fields? [["fileName"]] with
  | [file] => return .removeFile ⟨← Json.required Json.string? file⟩
  | _ => none

def ofPayload? (kind : RequestKind) (payload : Json) : Option Request :=
  match kind with
  | .init => (Setup.ofJson? payload).map .init
  | .updateFile => updateFile? payload
  | .removeFile => removeFile? payload
  | .emitFile => (fileText? payload).map fun (file, text) ↦ .emitFile file text
  | .registerFile => (fileText? payload).map fun (file, text) ↦ .registerFile file text
  | .diagnostics => some .diagnostics
  | .files => some .files

end Request

def Json.Draft.name? : Json.Draft → Option String
  | .str s => Json.Piece.string? s
  | .obj [(key, .null)] => Json.Piece.string? key
  | _ => none

structure RequestEnvelope where
  seq : Nat
  kind : RequestKind
  payload : Json
deriving Inhabited

/-- Every request about paths that are text has its message. There is none about other paths, as
`RawPath.envelope?` has it. -/
def Request.envelope (r : Request) (seq : Nat) : RequestEnvelope := ⟨seq, r.kind, r.payload⟩

namespace RequestEnvelope

def toJson (e : RequestEnvelope) : Json :=
  .obj ([("seq", .nat e.seq), ("type", .str e.kind.name)] ++
    if e.payload.isNull then [] else [("payload", e.payload)])

def ofDraft? (d : Json.Draft) : Option RequestEnvelope := do
  match ← d.fields? [["seq"], ["type"], ["payload"]] with
  | [seq, kind, payload] =>
    return {
      seq := ← (← (← seq).value?).natBelow? UInt64.size
      kind := ← RequestKind.names.lookup (← (← kind).name?)
      payload := ← match payload with
        | none => some .null
        | some d => d.within? (Json.maxDepth - 1) }
  | _ => none

def ofText? (s : String) : Option RequestEnvelope := (Json.Draft.ofText? s).bind ofDraft?

def request? (e : RequestEnvelope) : Option Request := Request.ofPayload? e.kind e.payload

end RequestEnvelope

end TypedLoader
