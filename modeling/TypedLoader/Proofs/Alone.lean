import TypedLoader.Loader.Instance
import TypedLoader.Loader.Surroundings
import TypedLoader.Proofs.Compilation

namespace TypedLoader

theorem DependencyGraph.expand_of_leaf {d : Dependencies} {file : Path} (h : d.edgesOf file = [])
    (seen : List String) (nodes : Array Node) (i : Nat) : expand d seen nodes [(i, file)] = nodes := by
  rw [expand, h, Dependencies.scanEdges, addChildren, List.append_nil, expand]

theorem FileDeps.collect_eq_empty {d : Dependencies} {file : Path} (h : d.edgesOf file = []) :
    collect d file = {} := by
  rw [collect, Dependencies.graph, DependencyGraph.expand_of_leaf h]
  rfl

theorem FileDeps.collect_of_leaf {d : Dependencies} {file leaf : Path}
    (h : d.edgesOf file = [⟨leaf, .source⟩]) (hleaf : d.edgesOf leaf = [])
    (hne : d.key leaf ≠ d.key file) : collect d file = { imports := [leaf] } := by
  have hnew : d.key leaf ∉ [d.key file] := by simpa using hne
  have hscan : d.scanEdges [d.key file] [⟨leaf, .source⟩] =
      ([(⟨leaf, .source⟩, true)], [d.key leaf, d.key file]) := if_neg hnew
  have hchildren : ([] : List (Nat × Path)) ++ (DependencyGraph.addChildren
      #[⟨file, none, [], true⟩] 0 [(⟨leaf, .source⟩, true)]).2 = [(1, leaf)] := rfl
  rw [collect, Dependencies.graph, DependencyGraph.expand, h, hscan, hchildren,
    DependencyGraph.expand_of_leaf hleaf]
  rfl

namespace Analysis.Walk

variable {w : World} {options : Json.Object} {k : Walk} {file : Path} {source : SourceFile}

theorem visit_alone (options : Json.Object) (hs : k.files.get? file = some source)
    (hscan : w.compiler.scan source.text = {}) :
    ∃ changed calls, visit w options k file =
      ⟨.ok (), { k with deps := k.deps.clear file, changed }, calls⟩ := by
  rw [visit, load, hs]
  simp only [hscan]
  exact ⟨_, _, rfl⟩

theorem run_alone (options : Json.Object) (hq : k.queue = [file]) (hs : k.files.get? file = some source)
    (hscan : w.compiler.scan source.text = {}) :
    ((run w options k).result = .ok () ∧ (run w options k).state.files = k.files) ∧
      ((run w options k).state.deps = k.deps ∨
        (run w options k).state.deps = k.deps.clear file) := by
  obtain ⟨hresult, hstate⟩ := run_eq_explore w options k
  rw [hresult, hstate]
  cases hv : isValid k.marks (k.files.key file) with
  | true =>
    rw [explore_skip hq hv, explore_nil rfl]
    exact ⟨⟨rfl, rfl⟩, Or.inl rfl⟩
  | false =>
    obtain ⟨changed, calls, hvisit⟩ := visit_alone options (k := k.enter file []) hs hscan
    have hend : explore w options k = .after calls
        ⟨.ok (), { k.enter file [] with deps := k.deps.clear file, changed }, []⟩ := by
      rw [explore_visit hq hv, hvisit]
      dsimp only
      rw [explore_nil rfl]
      rfl
    rw [hend]
    exact ⟨⟨rfl, rfl⟩, Or.inr rfl⟩

end Analysis.Walk

namespace Compilation

variable {w : World} {c : Compilation} {p : Path} {text : String}

theorem received_eq (c : Compilation) (p : Path) (text : String) :
    (c.received p text).files = (c.files.update p text true).2 ∧
      (c.received p text).deps = c.deps ∧ (c.received p text).options = c.options := by
  rw [received]
  split <;> exact ⟨rfl, rfl, rfl⟩

theorem Tidy.get?_received (h : c.Tidy) (p : Path) (text : String) :
    ∃ version, (c.received p text).files.get? p = some ⟨p.normalize, text, version⟩ := by
  obtain ⟨version, hupdate⟩ := FileStore.getElem?_update h.kept p text true
  have hkey := FileStore.key_eq_key_of_case (FileStore.case_update c.files p text true) p
  refine ⟨version, ?_⟩
  rw [(received_eq c p text).1, FileStore.get?, hkey, hupdate, if_pos rfl]

structure Unlinked (c : Compilation) : Prop where
  tidy : c.Tidy
  edges : c.deps.edges = ∅

theorem unlinked_make (options : Json.Object) (case : PathCase) : (make options case).Unlinked :=
  ⟨tidy_make options case, rfl⟩

namespace Unlinked

theorem collect_eq_empty (h : c.Unlinked) (p : Path) : FileDeps.collect c.deps p = {} := by
  apply FileDeps.collect_eq_empty
  rw [Dependencies.edgesOf, Dependencies.edgesAt, h.edges, Std.ExtTreeMap.getElem?_empty]
  rfl

theorem sync (h : c.Unlinked) (hscan : w.compiler.scan text = {}) :
    let c' := ((Compilation.sync w p text).run c).state
    ((Compilation.sync w p text).run c).result = .ok () ∧ c'.Unlinked ∧
      c'.files = (c.received p text).files ∧ c'.options = c.options := by
  intro c'
  obtain ⟨version, hget⟩ := h.tidy.get?_received p text
  obtain ⟨-, hdeps, hoptions⟩ := received_eq c p text
  have hget : ((c.received p text).walk p).files.get? p.normalize =
      some ⟨p.normalize, text, version⟩ := by
    rw [FileStore.get?, FileStore.key, PathCase.key_normalize]
    exact hget
  obtain ⟨⟨hresult, hfiles⟩, hwalk⟩ := Analysis.Walk.run_alone
    (c.received p text).options rfl hget hscan
  obtain ⟨analysed, hcheck, hf, ho, hd⟩ : ∃ analysed,
      ((check w p).run (c.received p text)).result = .ok analysed ∧
      ((check w p).run (c.received p text)).state.files = (c.received p text).files ∧
      ((check w p).run (c.received p text)).state.options = c.options ∧
      (((check w p).run (c.received p text)).state.deps = c.deps ∨
        ((check w p).run (c.received p text)).state.deps = c.deps.clear p.normalize) := by
    rw [← hdeps, ← hoptions, run_check]
    dsimp only
    rw [hresult]
    exact ⟨_, rfl, hfiles, rfl, hwalk⟩
  have hedges : ((check w p).run (c.received p text)).state.deps.edges = ∅ := by
    rcases hd with hd | hd
    · rw [hd, h.edges]
    · rw [hd, Dependencies.clear]
      simp only [h.edges, Std.ExtTreeMap.erase_empty]
  have htidy := (h.tidy.received p text).check w p
  have hdrop : ((if analysed.changed then Action.modify dropProgram else pure () : Act Unit).run
      ((check w p).run (c.received p text)).state).result = .ok () := by
    split <;> rfl
  simp only [c']
  rw [run_sync, Action.run_bind_of_ok hcheck]
  refine ⟨hdrop, ?_⟩
  split
  · exact ⟨⟨htidy.dropProgram, hedges⟩, hf, ho⟩
  · exact ⟨⟨htidy, hedges⟩, hf, ho⟩

theorem register (h : c.Unlinked) (p : Path) (hscan : w.compiler.scan text = {}) :
    ((Compilation.register w p text).run c).result = .ok {} ∧
      ((Compilation.register w p text).run c).state.Unlinked := by
  obtain ⟨hok, hnext, -⟩ := h.sync (p := p) hscan
  rw [Compilation.register, Action.run_bind_of_ok hok]
  exact ⟨congrArg Except.ok (hnext.collect_eq_empty p), hnext⟩

theorem compile (h : c.Unlinked) (hscan : w.compiler.scan text = {}) {t : Transpiled}
    (ht : w.compiler.transpile text p.normalize c.options = .ok t) :
    ((Compilation.compile w p text true).run c).result = .ok
        ⟨{ text := t.text, sourceMap := t.sourceMap, fast := true, diagnostics := t.diagnostics },
          {}⟩ ∧
      ((Compilation.compile w p text true).run c).state.Unlinked := by
  obtain ⟨hok, hnext, hfiles, hoptions⟩ := h.sync (p := p) hscan
  obtain ⟨version, hget⟩ := h.tidy.get?_received p text
  generalize hc : ((Compilation.sync w p text).run c).state = c' at hnext hfiles hoptions
  have hemit : (emitOrTranspile w p true).run c' = ⟨.ok
      { text := t.text, sourceMap := t.sourceMap, fast := true, diagnostics := t.diagnostics },
      c', [.transpile p.normalize true]⟩ := by
    have hfile : c'.get? p = some ⟨p.normalize, text, version⟩ := by
      rw [get?, hfiles, hget]
    rw [← hoptions] at ht
    rw [emitOrTranspile, if_pos rfl, transpile, Action.run_bind_of_ok (x := c') rfl]
    simp only [Action.get, Action.run, hfile, ht]
    rfl
  rw [Compilation.compile, Action.run_bind_of_ok hok, hc, Action.run_bind, hemit]
  exact ⟨congrArg (fun deps ↦ Except.ok (CompiledModule.mk _ deps)) (hnext.collect_eq_empty p),
    hnext⟩

end Unlinked

end Compilation

/-- Texts refer to nothing and are their own scripts. Source maps name the files. -/
def World.plain : World where
  compiler := {
    info := ⟨"plain", "1"⟩
    scan _ := {}
    resolveModule _ _ _ := .ok none
    resolveTypes _ _ _ := .ok none
    build _ := .error "no program"
    transpile text p _ := .ok { text, sourceMap := some p.text } }
  files := (⟨[]⟩ : MemoryFiles).toFileSystem

def Surroundings.plain : Surroundings where
  world := .plain
  workers := fun _ ↦ .plain
  launcher := .supplied fun _ ↦ .ok (.serving .within {})
  workingDirectory := ⟨"/"⟩
  now := 0

def Instance.plain (compilation : Compilation) : Instance where
  serial := 0
  config := {}
  context := ⟨"/"⟩
  identifier := ""
  compilation := compilation
  checker := none
  cache := none
  filter := {}
  debouncer := { window := 100 }

end TypedLoader
