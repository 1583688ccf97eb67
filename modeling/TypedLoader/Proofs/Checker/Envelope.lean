import TypedLoader.Checker.Pending
import TypedLoader.Proofs.Json.RoundTrip
import TypedLoader.Proofs.Path.Raw

namespace TypedLoader

theorem Json.eq_null_of_isNull {j : Json} (h : j.isNull = true) : j = .null := by
  cases j <;> first | rfl | cases h

theorem lt_of_number {α : Type} {slot : Option Json.Draft} {bound : Nat} {f : Nat → Option α}
    {a : α} (h : (do f (← (← (← slot).value?).natBelow? bound)) = some a) :
    ∃ n, n < bound ∧ f n = some a := by
  obtain ⟨d, -, hd⟩ := Option.bind_eq_some_iff.1 h
  obtain ⟨number, -, hnumber⟩ := Option.bind_eq_some_iff.1 hd
  obtain ⟨n, hn, hrest⟩ := Option.bind_eq_some_iff.1 hnumber
  exact ⟨n, (Json.eq_nat_of_natBelow? hn).2, hrest⟩

namespace RequestEnvelope

theorem name?_draft (kind : RequestKind) : (Json.str kind.name).draft.name? = some kind.name := by
  rw [Json.draft, Json.Draft.name?, Json.string?_pieces]

theorem lookup_name (kind : RequestKind) : RequestKind.names.lookup kind.name = some kind := by
  cases kind <;> decide

theorem ofDraft?_of_fields {d seq kind : Json.Draft} (payload : Option Json.Draft) {n : Nat}
    {name : String} {number content : Json} {k : RequestKind}
    (hfields : d.fields? [["seq"], ["type"], ["payload"]] = some [some seq, some kind, payload])
    (hseq : seq.value? = some number) (hnumber : number.natBelow? UInt64.size = some n)
    (hname : kind.name? = some name) (hkind : RequestKind.names.lookup name = some k)
    (hpayload : payload.elim (some .null) (·.within? (Json.maxDepth - 1)) = some content) :
    ofDraft? d = some ⟨n, k, content⟩ := by
  rw [ofDraft?, hfields]
  cases payload with
  | none =>
    rw [Option.elim_none, Option.some.injEq] at hpayload
    simp [hseq, hnumber, hname, hkind, hpayload]
  | some content =>
    rw [Option.elim_some] at hpayload
    simp [hseq, hnumber, hname, hkind, hpayload]

theorem portable_payload {e : RequestEnvelope} {n : Nat} (h : e.toJson.Portable n) :
    e.payload.Portable (n - 1) := by
  cases hn : e.payload.isNull with
  | true =>
    rw [Json.eq_null_of_isNull hn]
    exact .null
  | false =>
    apply Json.Portable.member (m := ("payload", e.payload)) h
    simp [hn]

theorem ofText?_text {e : RequestEnvelope} (h : e.toJson.Portable Json.maxDepth)
    (hseq : e.seq < UInt64.size) : ofText? e.toJson.text = some e := by
  have hp := portable_payload h
  obtain ⟨seq, kind, payload⟩ := e
  rw [ofText?, Json.ofText?_draft h, Option.bind_some]
  cases hn : payload.isNull with
  | true =>
    obtain rfl := Json.eq_null_of_isNull hn
    refine ofDraft?_of_fields none ?_ (Json.value?_nat hseq) (Json.natBelow?_nat hseq)
      (name?_draft kind) (lookup_name kind) rfl
    rw [toJson, Json.fields?_draft]
    simp [Json.slots?, Json.isNull]
  | false =>
    refine ofDraft?_of_fields (some payload.draft) ?_ (Json.value?_nat hseq)
      (Json.natBelow?_nat hseq) (name?_draft kind) (lookup_name kind) (Json.within?_draft hp)
    rw [toJson, Json.fields?_draft]
    simp [Json.slots?, hn]

theorem portable_of_ofText? {e e' : RequestEnvelope} {n : Nat} (h : e.toJson.Portable n)
    (he : ofText? e.toJson.text = some e') : e.payload.Portable (Json.maxDepth - 1) := by
  have hp := portable_payload h
  obtain ⟨seq, kind, payload⟩ := e
  rw [ofText?, Json.ofText?_draft h, Option.bind_some] at he
  cases hn : payload.isNull with
  | true =>
    obtain rfl := Json.eq_null_of_isNull hn
    exact .null
  | false =>
    have hfields : (toJson ⟨seq, kind, payload⟩).draft.fields? [["seq"], ["type"], ["payload"]] =
        some [some (Json.nat seq).draft, some (Json.str kind.name).draft, some payload.draft] := by
      rw [toJson, Json.fields?_draft]
      simp [Json.slots?, hn]
    rw [ofDraft?, hfields] at he
    simp only [Option.bind_eq_bind, Option.bind_some, Option.bind_eq_some_iff] at he
    obtain ⟨_, -, _, -, _, -, _, -, content, hcontent, -⟩ := he
    exact Json.portable_of_within? hp hcontent

/-- A message is not read if its content does not stay a level below the limit. -/
theorem unread_of_deep {e : RequestEnvelope} {n : Nat} (h : e.toJson.Portable n)
    (hdeep : ¬e.payload.Portable (Json.maxDepth - 1)) :
    ofText? e.toJson.text = none ∧ Json.ofText? e.toJson.text = none := by
  refine ⟨Option.eq_none_iff_forall_ne_some.2 fun e' he ↦ hdeep (portable_of_ofText? h he),
    Option.eq_none_iff_forall_ne_some.2 fun value hvalue ↦ hdeep ?_⟩
  exact portable_payload (Json.portable_of_ofText? h hvalue)

theorem seq_lt_of_ofText? {text : String} {e : RequestEnvelope} (h : ofText? text = some e) :
    e.seq < UInt64.size := by
  obtain ⟨d, -, hd⟩ := Option.bind_eq_some_iff.1 h
  obtain ⟨fields, -, hfields⟩ := Option.bind_eq_some_iff.1 hd
  split at hfields
  · obtain ⟨n, hlt, hrest⟩ := lt_of_number hfields
    simp only [Option.bind_eq_bind, Option.bind_eq_some_iff, Option.pure_def] at hrest
    obtain ⟨_, -, _, -, _, -, hpayload⟩ := hrest
    split at hpayload
    · obtain rfl := Option.some.inj hpayload
      exact hlt
    · obtain ⟨_, -, he⟩ := Option.bind_eq_some_iff.1 hpayload
      obtain rfl := Option.some.inj he
      exact hlt
  · cases hfields

end RequestEnvelope

namespace Response

theorem ofDraft?_of_fields {d seq success payload : Json.Draft} {n : Nat} {b : Bool}
    {number flag content : Json}
    (hfields : d.fields? [["seq"], ["success"], ["payload"]] =
      some [some seq, some success, some payload])
    (hseq : seq.value? = some number) (hnumber : number.natBelow? UInt64.size = some n)
    (hsuccess : success.value? = some flag) (hflag : flag.bool? = some b)
    (hpayload : payload.within? (Json.maxDepth - 1) = some content) :
    ofDraft? d = some ⟨n, b, content⟩ := by
  rw [ofDraft?, hfields]
  simp [hseq, hnumber, hsuccess, hflag, hpayload]

theorem ofText?_text {r : Response} (h : r.toJson.Portable Json.maxDepth)
    (hseq : r.seq < UInt64.size) : ofText? r.toJson.text = some r := by
  obtain ⟨seq, success, payload⟩ := r
  have hp : Json.Portable (Json.maxDepth - 1) payload :=
    Json.Portable.member (m := ("payload", payload)) h (by simp)
  rw [ofText?, Json.ofText?_draft h, Option.bind_some]
  have hb : (Json.bool success).draft.value? = some (.bool success) := rfl
  refine ofDraft?_of_fields ?_ (Json.value?_nat hseq) (Json.natBelow?_nat hseq) hb rfl
    (Json.within?_draft hp)
  rw [toJson, Json.fields?_draft]
  simp [Json.slots?]

theorem seq_lt_of_ofText? {text : String} {r : Response} (h : ofText? text = some r) :
    r.seq < UInt64.size := by
  obtain ⟨d, -, hd⟩ := Option.bind_eq_some_iff.1 h
  obtain ⟨fields, -, hfields⟩ := Option.bind_eq_some_iff.1 hd
  split at hfields
  · obtain ⟨n, hlt, hrest⟩ := lt_of_number hfields
    simp only [Option.bind_eq_bind, Option.bind_eq_some_iff, Option.pure_def] at hrest
    obtain ⟨_, -, _, -, _, -, hpayload⟩ := hrest
    split at hpayload
    · obtain rfl := Option.some.inj hpayload
      exact hlt
    · obtain ⟨_, -, he⟩ := Option.bind_eq_some_iff.1 hpayload
      obtain rfl := Option.some.inj he
      exact hlt
  · cases hfields

def received : Except CheckError Json → Reply
  | .ok payload => .ok payload
  | .error e => .error (.remote e.kind e.message)

theorem result_ofResult (seq : Nat) (x : Except CheckError Json) :
    (ofResult seq x).result = received x := by
  cases x with
  | ok payload => rfl
  | error e =>
    simp [ofResult, error, result, failure, received, Json.fields?, Json.slots?, Json.required,
      Json.string?]

theorem seq_ofResult (seq : Nat) (x : Except CheckError Json) : (ofResult seq x).seq = seq := by
  cases x <;> rfl

end Response

namespace Request

def CodesFit : Request → Prop
  | .init setup => ∀ code ∈ setup.settings.ignored, code < UInt32.size
  | _ => True

theorem settings_ofJson? {s : CheckerSettings} (h : ∀ code ∈ s.ignored, code < UInt32.size) :
    CheckerSettings.ofJson? s.toJson = some s := by
  obtain ⟨transpileOnly, ignored, reported, context, case⟩ := s
  have hi : (Json.arr (ignored.map .nat)).list? (Json.natBelow? UInt32.size) = some ignored :=
    Json.list?_map fun code hc ↦ Json.natBelow?_nat (h code hc)
  have hc : (Json.ofOption (fun c ↦ .str (PathCase.name c)) case).option?
      (Json.variant? PathCase.names) = some case := by
    cases case with
    | none => rfl
    | some c => cases c <;> rfl
  simp [CheckerSettings.ofJson?, CheckerSettings.toJson, CheckerSettings.fieldNames, Json.fields?,
    Json.slots?, Json.default, Json.bool?, hi, Json.list?_strings, Json.string?, hc]

theorem compiler_ofJson? (i : CompilerInfo) : CompilerInfo.ofJson? i.toJson = some i := by
  simp [CompilerInfo.ofJson?, CompilerInfo.toJson, Json.fields?, Json.slots?, Json.required,
    Json.string?]

theorem setup_ofJson? {s : Setup} (h : ∀ code ∈ s.settings.ignored, code < UInt32.size) :
    Setup.ofJson? s.toJson = some s := by
  simp [Setup.ofJson?, Setup.toJson, Json.fields?, Json.slots?, Json.required, compiler_ofJson?,
    settings_ofJson? h, Json.object?]

theorem ofPayload?_payload {r : Request} (h : r.CodesFit) :
    ofPayload? r.kind r.payload = some r := by
  cases r with
  | init setup =>
    rw [ofPayload?.eq_def]
    simp [kind, payload, setup_ofJson? h]
  | updateFile file text onlyKnown =>
    simp [ofPayload?, kind, payload, updateFile?, Json.fields?, Json.slots?, Json.required,
      Json.default, Json.string?, Json.bool?]
  | removeFile file =>
    simp [ofPayload?, kind, payload, removeFile?, Json.fields?, Json.slots?, Json.required,
      Json.string?]
  | emitFile file text =>
    simp [ofPayload?, kind, payload, fileText?, Json.fields?, Json.slots?, Json.required,
      Json.string?]
  | registerFile file text =>
    simp [ofPayload?, kind, payload, fileText?, Json.fields?, Json.slots?, Json.required,
      Json.string?]
  | diagnostics => rfl
  | files => rfl

theorem request?_envelope {r : Request} (h : r.CodesFit) (seq : Nat) :
    (r.envelope seq).request? = some r := ofPayload?_payload h

end Request

theorem isWord_of_lt {n : Nat} (h : n < UInt64.size) : Json.Number.IsWord n :=
  ⟨by omega, by omega⟩

section Carrying

variable {depth : Nat}

theorem portable_strings (l : List String) : (Json.strings l).Portable (depth + 1) := by
  simp [Json.strings]

theorem Setup.portable_toJson (depth : Nat) {s : Setup}
    (hoptions : (Json.obj s.options).Portable (depth + 2))
    (hbundler : s.bundler.Portable (depth + 2))
    (hcodes : ∀ code ∈ s.settings.ignored, code < UInt32.size) : s.toJson.Portable (depth + 3) := by
  have hcase : (Json.ofOption (fun c ↦ .str (PathCase.name c)) s.settings.case).Portable
      (depth + 1) := by
    cases s.settings.case <;> simp [Json.ofOption]
  have hignored : ∀ code ∈ s.settings.ignored, Json.Number.IsWord code := fun code hc ↦
    isWord_of_lt (Nat.lt_trans (hcodes code hc) (by decide))
  refine Json.Portable.obj_iff.2 ⟨by simp, ?_⟩
  simp [CompilerInfo.toJson, CheckerSettings.toJson, portable_strings, hcase, hbundler, hoptions]
  simpa using hignored

theorem Request.portable_payload (depth : Nat) {r : Request}
    (h : ∀ setup, r = .init setup → setup.toJson.Portable (depth + 1)) :
    r.payload.Portable (depth + 1) := by
  cases r with
  | init setup => exact h setup rfl
  | _ => simp [payload]

end Carrying

theorem Request.portable_envelope {r : Request} {n depth : Nat} (hn : n < UInt64.size)
    (h : r.payload.Portable depth) : (r.envelope n).toJson.Portable (depth + 1) := by
  rw [RequestEnvelope.toJson, Json.Portable.obj_iff]
  split <;> simp [envelope, isWord_of_lt hn, h]

theorem Response.portable_ofResult {x : Except CheckError Json} {n : Nat} (hn : n < UInt64.size)
    (h : ∀ payload, x = .ok payload → payload.Portable (Json.maxDepth - 1)) :
    (ofResult n x).toJson.Portable Json.maxDepth := by
  have hdepth : Json.maxDepth = Json.maxDepth - 1 + 1 := rfl
  have hdepth' : Json.maxDepth - 1 = Json.maxDepth - 2 + 1 := rfl
  rw [hdepth, toJson, Json.Portable.obj_iff]
  cases x with
  | ok payload => simp [ofResult, ok, isWord_of_lt hn, h payload rfl]
  | error e =>
    rw [hdepth']
    simp [ofResult, error, isWord_of_lt hn]

/-- What a request passes on for others, compiler options and options of the bundler, has no
fractions and nests so that the whole message stays within the limit. -/
def Request.Portable : Request → Prop
  | .init setup => (Json.obj setup.options).Portable (Json.maxDepth - 2) ∧
      setup.bundler.Portable (Json.maxDepth - 2)
  | _ => True

/-- Every request is read from its text as it was sent, with its number. -/
theorem Request.read_of_text {r : Request} {seq : Nat} (hseq : seq < UInt64.size)
    (hcodes : r.CodesFit) (hr : r.Portable) :
    ∃ e, RequestEnvelope.ofText? (r.envelope seq).toJson.text = some e ∧ e.seq = seq ∧
      e.request? = some r := by
  have hpayload : r.payload.Portable (Json.maxDepth - 1) := by
    refine Request.portable_payload 125 fun setup hsetup ↦ ?_
    subst hsetup
    exact Setup.portable_toJson 123 hr.1 hr.2 hcodes
  refine ⟨r.envelope seq, ?_, rfl, Request.request?_envelope hcodes seq⟩
  exact RequestEnvelope.ofText?_text (Request.portable_envelope hseq hpayload) hseq

/-- Characters that have to be escaped, the ends of the ranges of numbers, and nesting. -/
def nestedSetup : Setup where
  compiler := ⟨"scripted \"next\"", "1\n0"⟩
  settings := {
    transpileOnly := true
    ignored := [0, 4294967295]
    reported := ["src\\*", "é\t"]
    case := some .insensitive }
  options := [("strict", .bool false),
    ("lib", .arr [.nat 18446744073709551615, .int (-9223372036854775808), .null])]
  bundler := .obj [("mode", .obj [("", .arr [.str "\x08"])])]

theorem Request.read_of_nestedSetup : ∃ e,
    RequestEnvelope.ofText? ((Request.init nestedSetup).envelope 18446744073709551615).toJson.text =
      some e ∧ e.seq = 18446744073709551615 ∧ e.request? = some (.init nestedSetup) := by
  have hdepth : Json.maxDepth - 2 = 122 + 3 := rfl
  have hcodes : (Request.init nestedSetup).CodesFit := by
    simp [Request.CodesFit, nestedSetup]
  refine Request.read_of_text (by decide) hcodes ⟨?_, ?_⟩
  · have hint : (Json.int (-9223372036854775808)).Portable 123 := .int ⟨by decide, by decide⟩
    rw [hdepth]
    simp [nestedSetup, Json.Number.IsWord, hint]
  · rw [hdepth]
    simp [nestedSetup]

/-- The message about a path of bytes, which has to be text to be written. -/
def RawPath.envelope? (p : RawPath) (request : Path → Request) (seq : Nat) :
    Option RequestEnvelope :=
  p.text?.map fun s ↦ (request ⟨s⟩).envelope seq

theorem RawPath.envelope?_ofText (s : String) (request : Path → Request) (seq : Nat) :
    (ofText s).envelope? request seq = some ((request ⟨s⟩).envelope seq) := by
  rw [envelope?, text?_ofText, Option.map_some]

theorem RawPath.envelope?_stray (request : Path → Request) (seq : Nat) :
    (stray 0xFF).envelope? request seq = none := by
  rw [envelope?, text?_stray, Option.map_none]

def Json.nest : Nat → Json
  | 0 => .null
  | n + 1 => .arr [nest n]

theorem Json.portable_nest {n depth : Nat} : (nest n).Portable depth ↔ n ≤ depth := by
  induction n generalizing depth with
  | zero => exact iff_of_true .null (Nat.zero_le depth)
  | succ n ih =>
    cases depth with
    | zero => exact iff_of_false nofun (Nat.not_succ_le_zero n)
    | succ depth =>
      rw [nest, Portable.arr_iff, List.forall_mem_singleton, ih, Nat.succ_le_succ_iff]

/-- Options of the bundler that make a payload just as deep as the limit. -/
def deepSetup : Setup where
  compiler := ⟨"scripted", "1"⟩
  settings := {}
  options := []
  bundler := Json.nest 126

/-- A payload that keeps to the limit by itself is too deep in its message, and about a path that
is no text there is no message. -/
theorem Request.unread_of_deepSetup :
    (Request.init deepSetup).CodesFit ∧ (Request.init deepSetup).payload.Portable Json.maxDepth ∧
      RequestEnvelope.ofText? ((Request.init deepSetup).envelope 0).toJson.text = none ∧
      (RawPath.stray 0xFF).envelope? .removeFile 0 = none := by
  have hcodes : (Request.init deepSetup).CodesFit := by simp [Request.CodesFit, deepSetup]
  have hbundler : deepSetup.bundler.Portable 126 := Json.portable_nest.2 (Nat.le_refl 126)
  have hpayload : deepSetup.toJson.Portable 127 :=
    Setup.portable_toJson 124 (.obj List.nodup_nil nofun) hbundler hcodes
  refine ⟨hcodes, hpayload, ?_, RawPath.envelope?_stray _ _⟩
  have henvelope : ((Request.init deepSetup).envelope 0).toJson.Portable 128 :=
    Request.portable_envelope (by decide) hpayload
  refine (RequestEnvelope.unread_of_deep henvelope fun hread ↦ ?_).1
  have hdeep : (Json.nest 126).Portable (126 - 1) :=
    Json.Portable.member (m := ("webpackOptions", Json.nest 126)) hread (by simp [deepSetup])
  exact absurd (Json.portable_nest.1 hdeep) (by decide)

end TypedLoader
