import TypedLoader.Checker.Client
import TypedLoader.Proofs.Checker.Session
import TypedLoader.Proofs.Path.LastName

namespace TypedLoader

theorem endsWith_iff {s ending : String} :
    s.endsWith ending = true ↔ ending.toList <:+ s.toList := by
  rw [String.endsWith_eq_endsWith_toSlice, String.Slice.endsWith_string_iff, String.copy_toSlice]

theorem endsWith_append (s ending : String) : (s ++ ending).endsWith ending = true := by
  rw [endsWith_iff, String.toList_append]
  exact List.suffix_append ..

namespace EmitReply

variable {file : Path}

/-- The name of the script ends as scripts do, so that it is told from its map. -/
theorem compiled?_ofCompiled (h : file.fileName?.isSome) (c : Compiled) (deps : FileDeps) :
    (ofCompiled file c deps).compiled? =
      some { text := c.text, sourceMap := c.sourceMap, fast := c.fast } := by
  have hjs := Path.suffix_withExtension h "js" rfl
  have hscript : (file.withExtension "js").text.endsWith ".js" = true := endsWith_iff.2 hjs
  have hmap : (file.withExtension "js").text.endsWith ".map" = false := by
    rw [Bool.eq_false_iff, Ne, endsWith_iff]
    intro hm
    obtain ⟨a, ha⟩ := hjs
    obtain ⟨b, hb⟩ := hm
    have hlast := congrArg List.getLast? (ha.trans hb.symm)
    have hs : (("." ++ "js").toList).getLast? = some 's' := rfl
    have hp : (".map".toList).getLast? = some 'p' := rfl
    rw [List.getLast?_append, List.getLast?_append, hs, hp] at hlast
    cases hlast
  have hends : ((file.withExtension "js").withSuffix ".map").text.endsWith ".map" = true :=
    endsWith_append ..
  cases hs : c.sourceMap with
  | none =>
    simp [compiled?, ofCompiled, EmitOutput.script?, EmitOutput.sourceMap?,
      EmitOutput.scriptEndings, hs, hscript, hmap]
  | some text =>
    simp [compiled?, ofCompiled, EmitOutput.script?, EmitOutput.sourceMap?,
      EmitOutput.scriptEndings, hs, hscript, hmap, hends]

end EmitReply

theorem FileDeps.pathList?_strings (l : List Path) :
    pathList? (Json.strings (l.map (·.text))) = some l := by
  rw [Json.strings, List.map_map]
  exact Json.list?_map fun _ _ ↦ rfl

theorem FileDeps.ofJson?_toJson (f : FileDeps) : FileDeps.ofJson? f.toJson = some f := by
  simp [ofJson?, toJson, Json.fields?, Json.slots?, Json.default, pathList?_strings]

theorem OutputFile.ofJson?_toJson (f : OutputFile) : OutputFile.ofJson? f.toJson = some f := by
  simp [ofJson?, toJson, Json.fields?, Json.slots?, Json.required, Json.default, Json.string?,
    Json.bool?]

theorem EmitOutput.ofJson?_toJson (o : EmitOutput) : EmitOutput.ofJson? o.toJson = some o := by
  have hfiles : (Json.arr (o.files.map OutputFile.toJson)).list? OutputFile.ofJson? =
      some o.files := Json.list?_map fun f _ ↦ f.ofJson?_toJson
  simp [ofJson?, toJson, Json.fields?, Json.slots?, Json.required, hfiles, Json.bool?]

theorem EmitReply.ofJson?_toJson (r : EmitReply) : EmitReply.ofJson? r.toJson = some r := by
  simp [ofJson?, toJson, Json.fields?, Json.slots?, Json.required, EmitOutput.ofJson?_toJson,
    FileDeps.ofJson?_toJson, Json.bool?]

structure Report.Fits (r : Report) : Prop where
  code : r.code < UInt32.size
  line : r.line < UInt32.size
  character : r.character < UInt32.size

theorem Report.ofJson?_toJson {r : Report} (h : r.Fits) : Report.ofJson? r.toJson = some r := by
  have hcategory : Json.required (Json.variant? Category.names) (some (.str r.category.name)) =
      some r.category := by
    cases r.category <;> rfl
  have hnumber {bound n : Nat} (hn : n < bound) :
      Json.required (Json.natBelow? bound) (some (.nat n)) = some n := Json.natBelow?_nat hn
  have hstring (s : String) : Json.required Json.string? (some (.str s)) = some s := rfl
  have hfields : r.toJson.fields? fieldNames = some [some (.str r.category.name),
      some (.nat r.code), some (.str r.file), some (.nat r.line), some (.nat r.character),
      some (.str r.message), some (.str r.pretty)] := by
    simp [toJson, fieldNames, Json.fields?, Json.slots?]
  rw [ofJson?, hfields]
  simp only [Option.bind_eq_bind, Option.bind_some, hcategory, hnumber h.code, hnumber h.line,
    hnumber h.character, hstring]
  rfl

theorem Report.list?_toJson {reports : List Report} (h : ∀ r ∈ reports, r.Fits) :
    (Json.arr (reports.map Report.toJson)).list? Report.ofJson? = some reports :=
  Json.list?_map fun r hr ↦ ofJson?_toJson (h r hr)

section Carrying

variable {depth : Nat}

theorem FileDeps.portable_toJson (f : FileDeps) : f.toJson.Portable (depth + 2) := by
  simp [toJson, portable_strings]

theorem EmitReply.portable_toJson (r : EmitReply) : r.toJson.Portable (depth + 4) := by
  simp [toJson, EmitOutput.toJson, OutputFile.toJson, FileDeps.portable_toJson]

theorem Report.portable_toJson {r : Report} (h : r.Fits) : r.toJson.Portable (depth + 1) := by
  have hword {n : Nat} (hn : n < UInt32.size) : Json.Number.IsWord n :=
    isWord_of_lt (Nat.lt_trans hn (by decide))
  simp [toJson, hword h.code, hword h.line, hword h.character]

end Carrying

end TypedLoader
