import TypedLoader.Proofs.Analysis.Importing
import TypedLoader.Proofs.Checker.Content
import TypedLoader.Proofs.Checker.Handling

namespace TypedLoader

def Request.deps? (payload : Json) : Request → Option FileDeps
  | .emitFile .. => (EmitReply.ofJson? payload).map (·.deps)
  | .registerFile .. => FileDeps.ofJson? payload
  | _ => none

namespace Session

def Tidy (s : Session) : Prop := ∀ t, s.started = some t → t.compilation.Tidy

section Handling

variable {s : Session} {w : World}

theorem tidy_kept (w : World) (r : Request) : Kept Compilation.Tidy w r where
  make _ := Compilation.tidy_make _ _
  received _ _ h := h.received _ _
  check _ _ h := h.check w _
  remove _ _ h := h.remove _
  built _ _ h := ⟨h.case, h.kept, h.stored⟩

theorem Tidy.handle (h : s.Tidy) (w : World) (r : Request) : ((handle w r).run s).state.Tidy :=
  Holds.handle h (tidy_kept w r)

theorem Tidy.through (h : s.Tidy) (history : List (World × Request)) :
    (s.through history).Tidy :=
  Holds.through h fun x _ ↦ tidy_kept x.1 x.2

theorem tidy_empty : ({} : Session).Tidy := by
  intro t ht
  cases ht

end Handling

section Reporting

variable {s : Session} {w : World} {file : Path} {text : String} {payload : Json}

theorem onCompilation_ok {α : Type} {a : Started → Action Compilation CheckError α} {x : α}
    (h : ((onCompilation a).run s).result = .ok x) :
    ∃ t, s.started = some t ∧ ((a t).run t.compilation).result = .ok x ∧
      ((onCompilation a).run s).state =
        ⟨some { t with compilation := ((a t).run t.compilation).state }⟩ := by
  rw [Action.run, onCompilation] at h ⊢
  split at h
  · cases h
  · rename_i t ht
    exact ⟨t, ht, h, rfl⟩

theorem synced_handle {r : Request} (hr : r = .emitFile file text ∨ r = .registerFile file text)
    (hok : ((handle w r).run s).result = .ok payload) :
    ∃ t t', s.started = some t ∧ ((handle w r).run s).state.started = some t' ∧
      Compilation.Synced w t.compilation file text t'.compilation ∧
      r.deps? payload = some (FileDeps.collect t'.compilation.deps file) := by
  rcases hr with rfl | rfl
  · obtain ⟨t, ht, hinner, hstate⟩ := onCompilation_ok hok
    obtain ⟨m, hcompile, hreply, hstate'⟩ := Action.run_bind_ok hinner
    obtain ⟨hcompile, hsame⟩ := Action.run_mapError_ok hcompile
    obtain ⟨hsynced, hdeps⟩ := Compilation.synced_compile hcompile
    rw [← hstate'.trans hsame] at hsynced hdeps
    obtain rfl : (EmitReply.ofCompiled file m.output m.deps).toJson = payload :=
      Except.ok.inj hreply
    refine ⟨t, _, ht, congrArg Session.started hstate, hsynced, ?_⟩
    rw [Request.deps?, EmitReply.ofJson?_toJson]
    exact congrArg some hdeps
  · obtain ⟨t, ht, hinner, hstate⟩ := onCompilation_ok hok
    obtain ⟨deps, hregister, hreply, hstate'⟩ := Action.run_bind_ok hinner
    obtain ⟨hregister, hsame⟩ := Action.run_mapError_ok hregister
    obtain ⟨hsynced, hdeps⟩ := Compilation.synced_register hregister
    rw [← hstate'.trans hsame] at hsynced hdeps
    obtain rfl : deps.toJson = payload := Except.ok.inj hreply
    refine ⟨t, _, ht, congrArg Session.started hstate, hsynced, ?_⟩
    rw [Request.deps?, FileDeps.ofJson?_toJson]
    exact congrArg some hdeps

/-- The dependencies that a request for a file reports are listed and valid exactly
when its analysis comes to those of them that were loose. -/
theorem reported_known_iff (history : List (World × Request)) (w : World) (file : Path)
    (text : String) (r : Request) (hr : r = .emitFile file text ∨ r = .registerFile file text)
    (payload : Json)
    (hok : ((handle w r).run (({} : Session).through history)).result = .ok payload) :
    let s := ({} : Session).through history
    ∃ t t' deps, s.started = some t ∧ ((handle w r).run s).state.started = some t' ∧
      r.deps? payload = some deps ∧
      let c := t.compilation.received file text
      let c' := t'.compilation
      ((∀ p ∈ deps.all,
          (∃ q ∈ c'.files.paths, c'.files.key q = c'.files.key p) ∧ c'.isValid p = true) ↔
        ∀ p ∈ deps.all, c.Loose (c'.files.key p) → c.ComesTo c' file (c'.files.key p)) := by
  have htidy := tidy_empty.through history
  obtain ⟨t, t', ht, ht', hsynced, hdeps⟩ := synced_handle hr hok
  have htidy' : t'.compilation.Tidy := (htidy.handle w r) t' ht'
  refine ⟨t, t', _, ht, ht', hdeps, ?_⟩
  have hiff := hsynced.collect_iff (htidy t ht)
  simp only [Compilation.has, FileStore.has_iff htidy'.kept] at hiff
  exact hiff

theorem handle_register {t : Started} (hs : s.started = some t) {analysed : Analysed}
    (hok : ((Compilation.check w file).run (t.compilation.received file text)).result =
      .ok analysed) :
    ∃ payload, ((handle w (.registerFile file text)).run s).result = .ok payload := by
  have hregister :
      ∃ deps, ((Compilation.register w file text).run t.compilation).result = .ok deps := by
    rw [Compilation.register, Action.run_bind_of_ok (Compilation.result_sync hok)]
    exact ⟨_, rfl⟩
  obtain ⟨deps, hdeps⟩ := hregister
  rw [handle, result_onCompilation hs]
  refine ⟨deps.toJson, ?_⟩
  rw [Action.run_bind, Action.run_mapError, hdeps]
  rfl

theorem register_of_ended? {t : Started} (hs : s.started = some t) {n : Nat} {k : Analysis.Walk}
    (h : Analysis.Walk.ended? w (t.compilation.received file text).options n
      ((t.compilation.received file text).walk file) = some k) :
    let c' := t.compilation.settled file text k
    ((handle w (.registerFile file text)).run s).result =
        .ok (FileDeps.collect c'.deps file).toJson ∧
      ((handle w (.registerFile file text)).run s).state.started =
        some { t with compilation := c' } := by
  intro c'
  obtain ⟨hok, hsync⟩ := Compilation.sync_of_ended? h
  obtain ⟨hresult, hstate⟩ := Compilation.run_register w file text t.compilation
  obtain ⟨hanswer, hstarted⟩ := run_handle_of
    (fun _ ↦ (Compilation.register w file text).mapError CheckError.compile) FileDeps.toJson hs
    (r := .registerFile file text) rfl
  rw [Action.run_mapError, hresult, hok, hsync] at hanswer
  rw [Action.run_mapError, hstate, hsync] at hstarted
  exact ⟨hanswer, hstarted⟩

/-- In a session that has only been set up nothing is loose. -/
theorem reported_known_of_cycle :
    let w := World.importing ⟨[(⟨"/a.ts"⟩, "/b.d.ts"), (⟨"/b.d.ts"⟩, "/a.ts")]⟩
    let setup : Setup :=
      { compiler := ⟨"importing", "1"⟩, settings := { case := some .sensitive }, options := [] }
    let r := Request.registerFile ⟨"/a.ts"⟩ "/b.d.ts"
    let s := ({} : Session).through [(w, .init setup)]
    ∃ payload t' deps, ((handle w r).run s).result = .ok payload ∧
      ((handle w r).run s).state.started = some t' ∧ r.deps? payload = some deps ∧
      ∀ p ∈ deps.all, (∃ q ∈ t'.compilation.files.paths,
        t'.compilation.files.key q = t'.compilation.files.key p) ∧
          t'.compilation.isValid p = true := by
  intro w setup r s
  obtain ⟨t, hs, hc⟩ : ∃ t, s.started = some t ∧ t.compilation = Compilation.make [] .sensitive :=
    ⟨_, rfl, rfl⟩
  have hsupplied : World.Supplied ⟨[(⟨"/a.ts"⟩, "/b.d.ts"), (⟨"/b.d.ts"⟩, "/a.ts")]⟩
      (t.compilation.received ⟨"/a.ts"⟩ "/b.d.ts").files := by
    rw [hc]
    exact (World.supplied_empty .sensitive (by decide)).put (Or.inr (by decide)) ⟨"/a.ts"⟩ 0
  obtain ⟨analysed, hok, -⟩ := Compilation.check_importing (p := ⟨"/a.ts"⟩) hsupplied (by decide)
  obtain ⟨payload, hok⟩ := handle_register hs hok
  obtain ⟨t₁, t', deps, hs₁, ht', hdeps, hiff⟩ := reported_known_iff [(w, .init setup)] w ⟨"/a.ts"⟩
    "/b.d.ts" r (Or.inr rfl) payload hok
  refine ⟨payload, t', deps, hok, ht', hdeps, hiff.2 ?_⟩
  intro p _ hl
  obtain rfl : t = t₁ := Option.some.inj (hs.symm.trans hs₁)
  rw [hc] at hl
  obtain ⟨-, hknown | ⟨key, hv, -⟩⟩ := hl
  · exact absurd hknown Std.ExtTreeSet.not_mem_empty
  · have hv := Compilation.isValid_of_received hv
    have hstored := (Compilation.tidy_make [] .sensitive).stored key hv
    exact absurd hstored Std.ExtTreeMap.not_mem_empty

end Reporting

end Session

end TypedLoader
