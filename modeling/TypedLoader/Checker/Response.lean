import TypedLoader.Checker.FileDeps
import TypedLoader.Checker.Request

namespace TypedLoader

structure Response where
  seq : Nat
  success : Bool
  payload : Json
deriving Inhabited

namespace Response

def ok (seq : Nat) (payload : Json) : Response := ⟨seq, true, payload⟩

def error (seq : Nat) (e : CheckError) : Response :=
  ⟨seq, false, .obj [("message", .str e.message), ("kind", .str e.kind)]⟩

def ofResult (seq : Nat) : Except CheckError Json → Response
  | .ok payload => ok seq payload
  | .error e => error seq e

def toJson (r : Response) : Json :=
  .obj [("seq", .nat r.seq), ("success", .bool r.success), ("payload", r.payload)]

def ofDraft? (d : Json.Draft) : Option Response := do
  match ← d.fields? [["seq"], ["success"], ["payload"]] with
  | [seq, success, payload] =>
    return {
      seq := ← (← (← seq).value?).natBelow? UInt64.size
      success := ← (← (← success).value?).bool?
      payload := ← match payload with
        | none => some .null
        | some d => d.within? (Json.maxDepth - 1) }
  | _ => none

def ofText? (s : String) : Option Response := (Json.Draft.ofText? s).bind ofDraft?

def failure (r : Response) : CheckError :=
  let read? : Option CheckError := do
    match ← r.payload.fields? [["message"], ["kind"]] with
    | [message, kind] =>
      return .remote (← Json.required Json.string? kind) (← Json.required Json.string? message)
    | _ => none
  read?.getD (.remote "Unknown" "checker reported a failure without details")

def result (r : Response) : Except CheckError Json :=
  if r.success then .ok r.payload else .error r.failure

end Response

def OutputFile.toJson (f : OutputFile) : Json :=
  .obj [("name", .str f.name.text), ("text", .str f.text),
    ("writeByteOrderMark", .bool f.byteOrderMark)]

def OutputFile.ofJson? (j : Json) : Option OutputFile := do
  match ← j.fields? [["name"], ["text"], ["writeByteOrderMark"]] with
  | [name, text, mark] =>
    return ⟨⟨← Json.required Json.string? name⟩, ← Json.required Json.string? text,
      ← Json.default false Json.bool? mark⟩
  | _ => none

def EmitOutput.toJson (o : EmitOutput) : Json :=
  .obj [("outputFiles", .arr (o.files.map OutputFile.toJson)), ("emitSkipped", .bool o.skipped)]

def EmitOutput.ofJson? (j : Json) : Option EmitOutput := do
  match ← j.fields? [["outputFiles"], ["emitSkipped"]] with
  | [files, skipped] =>
    return ⟨← Json.required (Json.list? OutputFile.ofJson?) files,
      ← Json.required Json.bool? skipped⟩
  | _ => none

structure EmitReply where
  output : EmitOutput
  deps : FileDeps
  fast : Bool
deriving DecidableEq, Inhabited

namespace EmitReply

def ofCompiled (file : Path) (c : Compiled) (deps : FileDeps) : EmitReply :=
  let script := file.withExtension "js"
  let map := c.sourceMap.map fun text ↦ (⟨script.withSuffix ".map", text, false⟩ : OutputFile)
  { output := { files := ⟨script, c.text, false⟩ :: map.toList }
    deps
    fast := c.fast }

def compiled? (r : EmitReply) : Option Compiled :=
  r.output.script?.map fun script ↦
    { text := script.text, sourceMap := r.output.sourceMap?.map (·.text), fast := r.fast }

def toJson (r : EmitReply) : Json :=
  .obj [("output", r.output.toJson), ("deps", r.deps.toJson), ("fastEmit", .bool r.fast)]

def ofJson? (j : Json) : Option EmitReply := do
  match ← j.fields? [["output"], ["deps"], ["fastEmit"]] with
  | [output, deps, fast] =>
    return ⟨← Json.required EmitOutput.ofJson? output, ← Json.required FileDeps.ofJson? deps,
      ← Json.required Json.bool? fast⟩
  | _ => none

end EmitReply

end TypedLoader
