import TypedLoader.Proofs.Checker.Reported
import TypedLoader.Proofs.Modules
import TypedLoader.Proofs.Path.Raw

namespace TypedLoader

namespace Compilation

variable {w : World} {c c' : Compilation} {p : Path} {text : String}

/-- The options and the way in which paths are compared are kept, and every file that is stored
stays so: with its text and version, unless it is the file that came in. -/
structure Spares (own : Option Path) (c c' : Compilation) : Prop where
  options : c'.options = c.options
  case : c'.files.case = c.files.case
  stored : ∀ q source, c.get? q = some source → ∃ source', c'.get? q = some source' ∧
    ((∀ p ∈ own, c.files.key q ≠ c.files.key p) → source' = source)

theorem Spares.of_dropProgram {own : Option Path} {c₁ : Compilation} (h : Spares own c c₁)
    (hsame : c'.dropProgram = c₁.dropProgram) : Spares own c c' := by
  obtain ⟨hoptions, hfiles, -⟩ := Compilation.mk.inj hsame
  exact ⟨hoptions.trans h.options, hfiles ▸ h.case, fun q source hq ↦ by
    rw [get?, hfiles]
    exact h.stored q source hq⟩

theorem spares_refl (own : Option Path) (c : Compilation) : Spares own c c :=
  ⟨rfl, rfl, fun _ source hq ↦ ⟨source, hq, fun _ ↦ rfl⟩⟩

theorem Tidy.spares_sync (h : c.Tidy) (w : World) (p : Path) (text : String) :
    Spares (some p) c ((Compilation.sync w p text).run c).state := by
  have hcase : ((Compilation.sync w p text).run c).state.files.case = c.files.case := by
    rw [files_sync, (h.received p text).case_check w p, (received_eq c p text).1,
      FileStore.case_update]
  refine ⟨options_sync w p text c, hcase, fun q source hq ↦ ?_⟩
  obtain ⟨version, hupdate⟩ := FileStore.getElem?_update h.kept p text true
  have hkey := FileStore.key_eq_key_of_case hcase q
  -- the analysis leaves what is stored when it starts
  have hkeeps {source' : SourceFile}
      (hs : (c.files.update p text true).2.files[c.files.key q]? = some source') :
      ((Compilation.sync w p text).run c).state.get? q = some source' := by
    rw [get?, FileStore.get?, hkey, files_sync, run_check]
    refine Analysis.Walk.getElem?_run w _ ((c.received p text).walk p) ?_
    rw [walk, (received_eq c p text).1]
    exact hs
  by_cases hown : c.files.key p = c.files.key q
  · refine ⟨⟨p.normalize, text, version⟩, hkeeps ?_, fun hne ↦ absurd hown.symm (hne p rfl)⟩
    rw [hupdate, if_pos hown]
  · refine ⟨source, hkeeps ?_, fun _ ↦ rfl⟩
    rw [hupdate, if_neg hown]
    exact hq

theorem Tidy.spares_since_sync (h : c.Tidy)
    (hsame : c'.dropProgram = ((Compilation.sync w p text).run c).state.dropProgram) :
    Spares (some p) c c' ∧ ∃ version, c'.get? p = some ⟨p.normalize, text, version⟩ := by
  refine ⟨(h.spares_sync w p text).of_dropProgram hsame, ?_⟩
  rw [get?, (Compilation.mk.inj hsame).2.1]
  exact h.get?_sync w p text

theorem keeps_spares_reports (own : Option Path) (w : World) (f : DiagnosticFilter) (context : Path)
    (c : Compilation) : Spares own c ((reports w f context).run c).state :=
  keeps_reports w (P := Spares own c) (fun _ _ h ↦ h.of_dropProgram rfl) f context c
    (spares_refl own c)

end Compilation

def CheckError.turnedAway : List String := ["InvalidRequest", "NotInitialized", "InvalidPattern"]

theorem CheckError.kind_compile (e : CompileError) : (compile e).kind ∉ turnedAway := by
  cases e <;> simp [kind, CompileError.kind, turnedAway]

theorem Compilation.kind_reports {w : World} {f : DiagnosticFilter} {context : Path}
    {c : Compilation} {e : CheckError} (h : ((reports w f context).run c).result = .error e) :
    e.kind ∉ CheckError.turnedAway := by
  rw [reports] at h
  cases hp : ((program w).run c).result with
  | error e' =>
    have hmapped : (((program w).mapError CheckError.compile).run c).result =
        .error (.compile e') := by
      rw [Action.run_mapError, hp]
      rfl
    rw [Action.run_bind_of_error hmapped] at h
    obtain rfl := Except.error.inj h
    exact CheckError.kind_compile e'
  | ok latest =>
    have hmapped : (((program w).mapError CheckError.compile).run c).result = .ok latest := by
      rw [Action.run_mapError, hp]
      rfl
    rw [Action.run_bind_of_ok hmapped, Action.run_get_bind] at h
    split at h
    · cases h
    · obtain rfl := Except.error.inj h
      decide

namespace Session

open Compilation (Spares)

section Failing

variable {s : Session} {w : World} {r : Request} {e : CheckError}

theorem state_init_of_error {setup : Setup}
    (h : ((handle w (.init setup)).run s).result = .error e) :
    ((handle w (.init setup)).run s).state = s := by
  rw [handle, init] at h ⊢
  simp only at h ⊢
  split
  · rfl
  · rename_i filter hf
    rw [hf] at h
    cases h

/-- A request that lets a text come in fails after that. -/
theorem failed_after_sync {α : Type} {a : Started → Compilation.Act α} {content : α → Json}
    {t : Started} {file : Path} {text : String} (htidy : t.compilation.Tidy)
    (hr : handle w r = onCompilation fun t ↦ (a t).mapError .compile >>= fun x ↦ pure (content x))
    (hsame : ((a t).run t.compilation).state.dropProgram =
      ((Compilation.sync w file text).run t.compilation).state.dropProgram)
    (herr : ((handle w r).run ⟨some t⟩).result = .error e) :
    ∃ c', ((handle w r).run ⟨some t⟩).state = ⟨some { t with compilation := c' }⟩ ∧
      e.kind ∉ CheckError.turnedAway ∧ Spares (some file) t.compilation c' ∧
      ∃ version, c'.get? file = some ⟨file.normalize, text, version⟩ := by
  obtain ⟨hresult, hstarted⟩ := run_handle_of (s := ⟨some t⟩) _ content rfl hr
  have hfailed := map_eq_error (hresult.symm.trans herr)
  rw [Action.run_mapError] at hfailed hstarted
  obtain ⟨e', -, rfl⟩ := mapError_eq_error hfailed
  exact ⟨_, congrArg Session.mk hstarted, CheckError.kind_compile e',
    htidy.spares_since_sync hsame⟩

theorem handle_failed (h : s.Tidy) (herr : ((handle w r).run s).result = .error e) :
    ((handle w r).run s).state = s ∧ (s.started = none ∨ r.text? = none) ∨
    ∃ t c', s.started = some t ∧
      ((handle w r).run s).state = ⟨some { t with compilation := c' }⟩ ∧
      e.kind ∉ CheckError.turnedAway ∧ Spares (r.text?.map Prod.fst) t.compilation c' ∧
      ∀ file text, r.text? = some (file, text) →
        ∃ version, c'.get? file = some ⟨file.normalize, text, version⟩ := by
  obtain ⟨started⟩ := s
  cases started with
  | none =>
    refine Or.inl ⟨?_, Or.inl rfl⟩
    cases r with
    | init setup => exact state_init_of_error herr
    | _ => rw [handle, run_onCompilation_none]
  | some t =>
    have htidy := h t rfl
    cases r with
    | init setup => exact Or.inl ⟨state_init_of_error herr, Or.inr rfl⟩
    | updateFile file text onlyKnown =>
      rw [handle, run_onCompilation] at herr
      cases herr
    | removeFile file =>
      rw [handle, run_onCompilation] at herr
      cases herr
    | files =>
      rw [handle, run_onCompilation] at herr
      cases herr
    | emitFile file text =>
      obtain ⟨c', hstate, hkind, hspares, hget⟩ := failed_after_sync htidy rfl
        (Compilation.run_compile w file text t.settings.transpileOnly t.compilation).2 herr
      exact Or.inr ⟨t, c', rfl, hstate, hkind, hspares, fun _ _ ht ↦ by cases ht; exact hget⟩
    | registerFile file text =>
      obtain ⟨c', hstate, hkind, hspares, hget⟩ := failed_after_sync htidy rfl
        (congrArg _ (Compilation.run_register w file text t.compilation).2) herr
      exact Or.inr ⟨t, c', rfl, hstate, hkind, hspares, fun _ _ ht ↦ by cases ht; exact hget⟩
    | diagnostics =>
      obtain ⟨hresult, hstarted⟩ := run_handle_of (s := ⟨some t⟩) (w := w)
        (r := .diagnostics) (fun t ↦ Compilation.reports w t.filter t.settings.context)
        (fun reports ↦ .arr (reports.map Report.toJson)) rfl rfl
      refine Or.inr ⟨t, _, rfl, congrArg Session.mk hstarted,
        Compilation.kind_reports (map_eq_error (hresult.symm.trans herr)),
        Compilation.keeps_spares_reports none w t.filter t.settings.context t.compilation,
        fun _ _ ht ↦ by cases ht⟩

end Failing

/-- Settings and filter are kept, and of the compilation what `Spares` tells. -/
structure Spared (own : Option Path) (s s' : Session) : Prop where
  setup : (s'.started.map fun t ↦ (t.settings, t.filter)) =
    s.started.map fun t ↦ (t.settings, t.filter)
  compilation : ∀ t t', s.started = some t → s'.started = some t' →
    Spares own t.compilation t'.compilation

theorem spared_of_eq (own : Option Path) {s s' : Session} (h : s' = s) : Spared own s s' where
  setup := congrArg (fun s ↦ s.started.map fun t ↦ (t.settings, t.filter)) h
  compilation t t' ht ht' := by
    rw [h] at ht'
    obtain rfl := Option.some.inj (ht.symm.trans ht')
    exact Compilation.spares_refl own t.compilation

theorem spared_of_spares {own : Option Path} {s : Session} {t : Started} {c' : Compilation}
    (hs : s.started = some t) (h : Spares own t.compilation c') :
    Spared own s ⟨some { t with compilation := c' }⟩ where
  setup := by
    rw [hs]
    rfl
  compilation t₁ t' ht ht' := by
    obtain rfl := Option.some.inj (hs.symm.trans ht)
    obtain rfl := Option.some.inj ht'
    exact h

theorem failed_of_success {w : World} {s : Session} {envelope : RequestEnvelope}
    (h : (s.answer w envelope).1.success = false) :
    ∃ e, (s.answer w envelope).1 = .error envelope.seq e ∧
      (envelope.request? = none ∧ e = .malformed ∧ (s.answer w envelope).2.1 = s ∨
        ∃ r, envelope.request? = some r ∧ ((handle w r).run s).result = .error e ∧
          (s.answer w envelope).2.1 = ((handle w r).run s).state) := by
  rw [answer] at h ⊢
  cases hr : envelope.request? with
  | none => exact ⟨.malformed, rfl, Or.inl ⟨rfl, rfl, rfl⟩⟩
  | some r =>
    rw [hr] at h
    simp only at h ⊢
    cases hresult : ((handle w r).run s).result with
    | ok payload =>
      rw [hresult] at h
      cases h
    | error e => exact ⟨e, rfl, Or.inr ⟨r, rfl, hresult, rfl⟩⟩

/-- A request that fails leaves the configuration, and all stored files but its own; a text that
has come in is stored. One that is turned away leaves everything. -/
theorem failure_spares (history : List (World × Request)) (w : World)
    (envelope : RequestEnvelope) :
    let s := ({} : Session).through history
    let o := s.answer w envelope
    o.1.success = false →
      Spared ((envelope.request?.bind Request.text?).map Prod.fst) s o.2.1 ∧
      (∃ kind message, o.1.failure = .remote kind message ∧
        (kind ∈ ["InvalidRequest", "NotInitialized", "InvalidPattern"] → o.2.1 = s)) ∧
      ∀ file text, envelope.request? = some (.emitFile file text) ∨
          envelope.request? = some (.registerFile file text) → s.started.isSome →
        ∃ t' version, o.2.1.started = some t' ∧
          t'.compilation.get? file = some ⟨file.normalize, text, version⟩ := by
  intro s o hfail
  obtain ⟨e, herror, hcases⟩ := failed_of_success hfail
  have hfailure : o.1.failure = .remote e.kind e.message := by
    rw [herror]
    exact Except.error.inj (Response.result_ofResult envelope.seq (.error e))
  rcases hcases with ⟨hnone, -, hstate⟩ | ⟨r, hr, herr, hstate⟩
  · refine ⟨spared_of_eq _ hstate, ⟨_, _, hfailure, fun _ ↦ hstate⟩, fun file text hrequest ↦ ?_⟩
    rw [hnone] at hrequest
    simp at hrequest
  have htext {file : Path} {text : String}
      (hrequest : envelope.request? = some (.emitFile file text) ∨
        envelope.request? = some (.registerFile file text)) : r.text? = some (file, text) := by
    rcases hrequest with hrequest | hrequest <;>
      obtain rfl := Option.some.inj (hr.symm.trans hrequest) <;> rfl
  rcases handle_failed (tidy_empty.through history) herr with
    ⟨hsame, huntold⟩ | ⟨t, c', hs, hafter, hkind, hspares, hget⟩
  · have hsame : o.2.1 = s := hstate.trans hsame
    refine ⟨spared_of_eq _ hsame, ⟨_, _, hfailure, fun _ ↦ hsame⟩,
      fun file text hrequest hstarted ↦ ?_⟩
    rcases huntold with hnone | hnone
    · rw [hnone] at hstarted
      cases hstarted
    · rw [htext hrequest] at hnone
      cases hnone
  · have hafter : o.2.1 = ⟨some { t with compilation := c' }⟩ := hstate.trans hafter
    refine ⟨?_, ⟨_, _, hfailure, fun hk ↦ absurd hk hkind⟩, fun file text hrequest _ ↦ ?_⟩
    · rw [hr, hafter]
      exact spared_of_spares hs hspares
    · obtain ⟨version, hget⟩ := hget file text (htext hrequest)
      exact ⟨_, version, congrArg Session.started hafter, hget⟩

def refusing : World :=
  { World.plain with
    compiler := { World.plain.compiler with transpile := fun _ _ _ ↦ .error "refused" } }

theorem emit_refused {s : Session} {t : Started} (hs : s.started = some t) (h : t.compilation.Tidy)
    (honly : t.settings.transpileOnly = true) (file : Path) (text : String) :
    ∃ e, ((handle refusing (.emitFile file text)).run s).result = .error (.compile e) := by
  obtain ⟨e, hcompile⟩ : ∃ e, ((Compilation.compile refusing file text true).run
      t.compilation).result = .error e := by
    have hrefused := h.result_transpile refusing file text
    rw [(Compilation.run_compile refusing file text true t.compilation).1, hrefused]
    cases ((Compilation.sync refusing file text).run t.compilation).result <;> exact ⟨_, rfl⟩
  refine ⟨e, ?_⟩
  rw [handle, result_onCompilation hs, honly]
  refine congrArg Outcome.result (Action.run_bind_of_error ?_ _)
  rw [Action.run_mapError, hcompile]
  rfl

/-- A script that the compiler refuses to make leaves its text, and what was stored before. -/
theorem failure_spares_of_refusal :
    let w : World := { World.plain with
      compiler := { World.plain.compiler with transpile := fun _ _ _ ↦ .error "refused" } }
    let setup : Setup :=
      { compiler := ⟨"plain", "1"⟩, settings := { transpileOnly := true }, options := [] }
    let s := ({} : Session).through [(w, .init setup), (w, .registerFile ⟨"/b.ts"⟩ "b")]
    let o := s.answer w ((Request.emitFile ⟨"/a.ts"⟩ "a").envelope 1)
    o.1.success = false ∧ Spared (some ⟨"/a.ts"⟩) s o.2.1 ∧
      ∃ t' version, o.2.1.started = some t' ∧
        t'.compilation.get? ⟨"/a.ts"⟩ = some ⟨(⟨"/a.ts"⟩ : Path).normalize, "a", version⟩ := by
  intro w setup s o
  obtain ⟨t, hs, honly⟩ : ∃ t, s.started = some t ∧ t.settings.transpileOnly = true :=
    ⟨_, rfl, rfl⟩
  obtain ⟨e, herror⟩ := emit_refused hs (tidy_empty.through _ t hs) honly ⟨"/a.ts"⟩ "a"
  have hsuccess : o.1.success = false :=
    congrArg (fun result ↦ (Response.ofResult 1 result).success) herror
  obtain ⟨hspared, -, hstored⟩ := failure_spares _ w _ hsuccess
  exact ⟨hsuccess, hspared, hstored _ _ (Or.inl rfl) rfl⟩

theorem failure_takes_over :
    let setup : Setup :=
      { compiler := ⟨"plain", "1"⟩, settings := { transpileOnly := true }, options := [] }
    let s := ({} : Session).through
      [(refusing, .init setup), (refusing, .registerFile ⟨"/a\\b.ts"⟩ "b")]
    let o := s.answer refusing ((Request.emitFile ⟨"/a/b.ts"⟩ "a").envelope 1)
    o.1.success = false ∧
      (∃ t, s.started = some t ∧
        t.compilation.get? ⟨"/a\\b.ts"⟩ = some ⟨⟨"/a\\b.ts"⟩, "b", 0⟩) ∧
      ∃ t' version, o.2.1.started = some t' ∧
        t'.compilation.get? ⟨"/a\\b.ts"⟩ = some ⟨⟨"/a/b.ts"⟩, "a", version⟩ := by
  intro setup s o
  let c : Compilation := .make [] .sensitive
  have hended : (Analysis.Walk.ended? refusing [] 5
      ((c.received ⟨"/a\\b.ts"⟩ "b").walk ⟨"/a\\b.ts"⟩)).map (fun k ↦
        (c.settled ⟨"/a\\b.ts"⟩ "b" k).get? ⟨"/a\\b.ts"⟩) =
          some (some ⟨⟨"/a\\b.ts"⟩, "b", 0⟩) := by decide +kernel
  obtain ⟨k, hk, hget⟩ := Option.map_eq_some_iff.1 hended
  obtain ⟨t, hs, hc, honly⟩ : ∃ t,
      (({} : Session).through [(refusing, .init setup)]).started = some t ∧
        t.compilation = c ∧ t.settings.transpileOnly = true := ⟨_, rfl, rfl, rfl⟩
  obtain ⟨-, hregistered⟩ := register_of_ended? hs (by rw [hc]; exact hk)
  rw [hc] at hregistered
  have htidy := tidy_empty.through
    [(refusing, .init setup), (refusing, .registerFile ⟨"/a\\b.ts"⟩ "b")]
  obtain ⟨e, herror⟩ := emit_refused hregistered (htidy _ hregistered) honly ⟨"/a/b.ts"⟩ "a"
  have hsuccess : o.1.success = false :=
    congrArg (fun result ↦ (Response.ofResult 1 result).success) herror
  rcases handle_failed htidy herror with ⟨-, hnone | hnone⟩ | ⟨_, c', -, hafter, -, -, hstored⟩
  · cases hregistered.symm.trans hnone
  · cases hnone
  · obtain ⟨version, hget'⟩ := hstored ⟨"/a/b.ts"⟩ "a" rfl
    have hkey : c'.files.key ⟨"/a\\b.ts"⟩ = c'.files.key ⟨"/a/b.ts"⟩ := by
      rw [FileStore.key, FileStore.key]
      cases c'.files.case <;> decide
    have hnormal : (⟨"/a/b.ts"⟩ : Path).normalize = ⟨"/a/b.ts"⟩ := by decide
    rw [Compilation.get?, FileStore.get?, ← hkey, hnormal] at hget'
    exact ⟨hsuccess, ⟨_, hregistered, hget⟩, _, version, congrArg Session.started hafter, hget'⟩

theorem register_unwritten :
    let setup : Setup :=
      { compiler := ⟨"plain", "1"⟩, settings := { transpileOnly := true }, options := [] }
    let unwritten := (RawPath.stray 0xFF).spelling
    let w := World.importing ⟨[(unwritten, "")]⟩
    let fresh := ({} : Session).through [(w, .init setup)]
    let reply := (handle w (.registerFile ⟨"/m.ts"⟩ unwritten.text)).run fresh
    reply.result = .ok (FileDeps.toJson { imports := [unwritten] }) ∧
      (∃ t, fresh.started = some t ∧ t.compilation.has ⟨"/m.ts"⟩ = false) ∧
      ∃ t', reply.state.started = some t' ∧ t'.compilation.has ⟨"/m.ts"⟩ = true := by
  intro setup unwritten w fresh reply
  let c : Compilation := .make [] .sensitive
  have hended : (Analysis.Walk.ended? w [] 5
      ((c.received ⟨"/m.ts"⟩ unwritten.text).walk ⟨"/m.ts"⟩)).map (fun k ↦
        let c' := c.settled ⟨"/m.ts"⟩ unwritten.text k
        (c'.has ⟨"/m.ts"⟩, c'.deps.edgesOf ⟨"/m.ts"⟩, c'.deps.edgesOf unwritten,
          c'.deps.key unwritten == c'.deps.key ⟨"/m.ts"⟩)) =
            some (true, [⟨unwritten, .source⟩], [], false) := by decide +kernel
  obtain ⟨k, hk, hview⟩ := Option.map_eq_some_iff.1 hended
  simp only [Prod.mk.injEq, beq_eq_false_iff_ne] at hview
  obtain ⟨hhas, hedges, hleaf, hne⟩ := hview
  obtain ⟨t, hs, hc⟩ : ∃ t, fresh.started = some t ∧ t.compilation = c := ⟨_, rfl, rfl⟩
  obtain ⟨hreply, hregistered⟩ := register_of_ended? hs (by rw [hc]; exact hk)
  rw [hc] at hreply hregistered
  rw [FileDeps.collect_of_leaf hedges hleaf hne] at hreply
  have hfresh : c.has ⟨"/m.ts"⟩ = false := by decide +kernel
  exact ⟨hreply, ⟨t, hs, hc ▸ hfresh⟩, _, hregistered, hhas⟩

/-- Two paths may have one key, and then a request for one takes over what is stored for the
other. A reply that names a path that is no text cannot be written, though the session has changed
by then. -/
theorem failure_does_not_spare :
    let setup : Setup :=
      { compiler := ⟨"plain", "1"⟩, settings := { transpileOnly := true }, options := [] }
    let s := ({} : Session).through
      [(refusing, .init setup), (refusing, .registerFile ⟨"/a\\b.ts"⟩ "b")]
    let o := s.answer refusing ((Request.emitFile ⟨"/a/b.ts"⟩ "a").envelope 1)
    let unwritten := (RawPath.stray 0xFF).spelling
    let w := World.importing ⟨[(unwritten, "")]⟩
    let fresh := ({} : Session).through [(w, .init setup)]
    let reply := (handle w (.registerFile ⟨"/m.ts"⟩ unwritten.text)).run fresh
    (o.1.success = false ∧
      (∃ t, s.started = some t ∧
        t.compilation.get? ⟨"/a\\b.ts"⟩ = some ⟨⟨"/a\\b.ts"⟩, "b", 0⟩) ∧
      ∃ t' version, o.2.1.started = some t' ∧
        t'.compilation.get? ⟨"/a\\b.ts"⟩ = some ⟨⟨"/a/b.ts"⟩, "a", version⟩) ∧
    reply.result = .ok (FileDeps.toJson { imports := [unwritten] }) ∧
      (RawPath.stray 0xFF).toJson? = none ∧
      (∃ t, fresh.started = some t ∧ t.compilation.has ⟨"/m.ts"⟩ = false) ∧
      ∃ t', reply.state.started = some t' ∧ t'.compilation.has ⟨"/m.ts"⟩ = true := by
  intro setup s o unwritten w fresh reply
  obtain ⟨hreply, hfresh, hregistered⟩ := register_unwritten
  exact ⟨failure_takes_over, hreply, RawPath.toJson?_stray, hfresh, hregistered⟩

end Session

end TypedLoader
