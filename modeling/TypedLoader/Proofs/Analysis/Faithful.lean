import TypedLoader.Proofs.Analysis.Described
import TypedLoader.Proofs.Compilation

namespace TypedLoader

open Relation (ReflTransGen)

structure Compiler.NamesAs (k k' : Compiler) : Prop where
  scan : k.scan = k'.scan
  modules : k.resolveModule = k'.resolveModule
  types : k.resolveTypes = k'.resolveTypes

namespace Analysis

section Asking

variable (w : World) (options : Json.Object) (file : Path) (refs : References)

def importLinks : List Edge := (refs.imports.map .module).filterMap (lone w options file).edge?

/-- The edges to the paths that a text refers to, if all of them are there. -/
def pathLinks : List Edge := refs.paths.map fun reference ↦ Site.edgeTo (referenced file reference)

def typeLinks : List Edge := (refs.types.map .types).filterMap (lone w options file).edge?

inductive Cites (text : String) : Path → Prop
  | module {name : String} {r : ResolvedModule} (cited : name ∈ (w.compiler.scan text).imports)
      (found : w.compiler.resolveModule name file options = .ok (some r)) :
      Cites text r.file.normalize
  | path {reference : String} (cited : reference ∈ (w.compiler.scan text).paths) :
      Cites text (referenced file reference)
  | types {name : String} {r : ResolvedTypes} (cited : name ∈ (w.compiler.scan text).types)
      (found : w.compiler.resolveTypes name file options = .ok (some r)) :
      Cites text r.file.normalize

/-- No citation of the text is refused, and the edges are those of its imports, of
paths that it refers to, and of the types that it names. -/
structure Traces (text : String) (edges : List Edge) : Prop where
  accepted : ∀ c ∈ citations (w.compiler.scan text), ¬(lone w options file).Refuses c
  edges : ∃ between, between.Sublist (pathLinks file (w.compiler.scan text)) ∧
    edges = importLinks w options file (w.compiler.scan text) ++ between ++
      typeLinks w options file (w.compiler.scan text)

end Asking

section

variable {w v : World} {options : Json.Object} {file : Path} {text : String} {s : Site}

theorem filterMap_paths (s : Site) (refs : References) :
    ((refs.paths.map .path).filterMap s.edge?).Sublist (pathLinks s.file refs) := by
  rw [List.filterMap_map, pathLinks]
  induction refs.paths with
  | nil => exact .slnil
  | cons reference paths ih =>
    rw [List.filterMap_cons, List.map_cons, Function.comp_apply, Site.edge?]
    cases s.stored (referenced s.file reference) ||
        s.world.files.isFile (referenced s.file reference) with
    | true => exact ih.cons_cons _
    | false => exact ih.cons _

theorem edge?_module (h : s.world.compiler.NamesAs w.compiler) (name : String) :
    s.edge? (.module name) = (lone w s.options s.file).edge? (.module name) := by
  rw [Site.edge?, Site.edge?, h.modules]
  rfl

theorem edge?_types (h : s.world.compiler.NamesAs w.compiler) (name : String) :
    s.edge? (.types name) = (lone w s.options s.file).edge? (.types name) := by
  rw [Site.edge?, Site.edge?, h.types]
  rfl

theorem refuses_iff (h : s.world.compiler.NamesAs w.compiler) (c : Citation) :
    s.Refuses c ↔ (lone w s.options s.file).Refuses c := by
  cases c with
  | module name =>
    rw [Site.Refuses, Site.Refuses, h.modules]
    rfl
  | path reference => rfl
  | types name =>
    rw [Site.Refuses, Site.Refuses, h.types]
    rfl

theorem traces_filterMap (h : s.world.compiler.NamesAs w.compiler)
    (accepted : ∀ c ∈ citations (w.compiler.scan text), ¬s.Refuses c) :
    Traces w s.options s.file text ((citations (w.compiler.scan text)).filterMap s.edge?) := by
  refine ⟨fun c hc hr ↦ accepted c hc ((refuses_iff h c).2 hr), _,
    filterMap_paths s (w.compiler.scan text), ?_⟩
  have himports (names : List String) : (names.map .module).filterMap s.edge? =
      (names.map .module).filterMap (lone w s.options s.file).edge? := by
    rw [List.filterMap_map, List.filterMap_map]
    exact List.filterMap_congr fun name _ ↦ edge?_module h name
  have htypes (names : List String) : (names.map .types).filterMap s.edge? =
      (names.map .types).filterMap (lone w s.options s.file).edge? := by
    rw [List.filterMap_map, List.filterMap_map]
    exact List.filterMap_congr fun name _ ↦ edge?_types h name
  rw [citations, List.filterMap_append, List.filterMap_append, himports, htypes, importLinks,
    typeLinks, List.append_assoc]

theorem cites_of_edge? (h : s.world.compiler.NamesAs w.compiler) {c : Citation}
    (hc : c ∈ citations (w.compiler.scan text)) {e : Edge} (he : s.edge? c = some e) :
    Cites w s.options s.file text e.target := by
  rcases mem_citations.1 hc with ⟨name, hm, rfl⟩ | ⟨reference, hm, rfl⟩ | ⟨name, hm, rfl⟩
  · rw [Site.edge?, h.modules] at he
    split at he
    · rename_i r found
      obtain rfl := Option.some.inj he
      exact .module hm found
    · cases he
  · rw [Site.edge?] at he
    split at he
    · obtain rfl := Option.some.inj he
      exact .path hm
    · cases he
  · rw [Site.edge?, h.types] at he
    split at he
    · rename_i r found
      obtain rfl := Option.some.inj he
      exact .types hm found
    · cases he

/-- A text whose edges have been recorded is accepted anew, with the same edges up
to those to paths. -/
theorem Traces.anew {edges : List Edge} (h : Traces w options file text edges) :
    let o := (Links.linkAll (lone w options file) (w.compiler.scan text)).run
      ⟨{ case := .sensitive }, []⟩
    o.result = .ok () ∧ Traces w options file text (o.state.deps.edgesOf file) := by
  obtain ⟨hok, hedges⟩ := run_lone h.accepted
  have htraces := traces_filterMap (s := lone w options file) (w := w) ⟨rfl, rfl, rfl⟩ h.accepted
  exact ⟨hok, hedges ▸ htraces⟩

end

-- the paths that come up, and the texts that they may have
variable {w : World} {options : Json.Object} {Up : Path → Prop} {Has : Path → String → Prop}

variable (w options Up Has) in
/-- Paths that come up are in normal form and without backslashes, and their texts
cite paths that come up. -/
structure Surveyed : Prop where
  normal : ∀ p, Up p → p.normalize = p
  plain : ∀ p, Up p → p.IsPlain
  cites : ∀ p text q, Up p → Has p text → Cites w options p text q → Up q

variable (w Up Has) in
/-- A world in which names mean what they mean in `w`, and in which files have the
texts that they may have. -/
structure Fair (v : World) : Prop where
  names : v.compiler.NamesAs w.compiler
  reads : ∀ p text, Up p → v.files.read p = .ok text → Has p text

variable (w options Up Has) in
/-- What is stored has come up with its text, and a valid file is stored and has
the edges that its text asks for. -/
structure Faithful (files : FileStore) (deps : Dependencies) (marks : Marks) : Prop where
  files_case : files.case = .sensitive
  deps_case : deps.case = .sensitive
  kept : files.Kept
  stored : ∀ key source, files.files[key]? = some source → Up ⟨key⟩ ∧ Has ⟨key⟩ source.text
  valid : ∀ key, isValid marks key = true → ∃ source, files.files[key]? = some source ∧
    Traces w options ⟨key⟩ source.text (deps.edgesAt key)

section Walking

variable {v : World} {files files' : FileStore} {deps : Dependencies} {marks : Marks}
  {k k' : Walk} {file : Path} {queue : List Path} {text : String} {new : List Edge}
  {added : List Path}

theorem Surveyed.key (hs : Surveyed w options Up Has) {p : Path} (hp : Up p) :
    PathCase.sensitive.key p = p.text := Path.key_of_isPlain (hs.plain p hp) (hs.normal p hp)

theorem Faithful.key (h : Faithful w options Up Has files deps marks)
    (hs : Surveyed w options Up Has) {p : Path} (hp : Up p) : files.key p = p.text := by
  rw [FileStore.key, h.files_case, hs.key hp]

theorem Faithful.loads (h : Faithful w options Up Has files deps marks)
    (hs : Surveyed w options Up Has) (hv : Fair w Up Has v) (hup : Up file)
    (hl : Walk.Loads v files file text files') :
    Faithful w options Up Has files' deps marks ∧ Has file text := by
  have hkey := h.key hs hup
  refine ⟨⟨hl.case.trans h.files_case, h.deps_case, hl.kept h.kept, ?_, ?_⟩, ?_⟩
  · intro key source hk
    cases hl with
    | stored => exact h.stored key source hk
    | read _ hr =>
      rw [FileStore.add, FileStore.getElem?_put, hkey] at hk
      split at hk
      · rename_i he
        obtain rfl := Option.some.inj hk
        rw [← he]
        exact ⟨hup, hv.reads file text hup hr⟩
      · exact h.stored key source hk
  · intro key hk
    obtain ⟨source, hsource, ht⟩ := h.valid key hk
    exact ⟨source, hl.getElem? hsource, ht⟩
  · cases hl with
    | stored hg =>
      rw [FileStore.get?, hkey] at hg
      exact (h.stored _ _ hg).2
    | read _ hr => exact hv.reads file text hup hr

/-- A visit that succeeds records the edges of its file, and lets files wait that
come up. -/
theorem Faithful.visit (h : Faithful w options Up Has k.files k.deps k.marks)
    (hs : Surveyed w options Up Has) (hv : Fair w Up Has v) (hup : ∀ q ∈ file :: queue, Up q)
    (hnot : isValid k.marks (k.files.key file) = false)
    (accepted : ∀ c ∈ citations (v.compiler.scan text),
      ¬(Walk.site v options (k.enter file queue) k'.files file).Refuses c)
    (hvis : Walk.Visits v options (k.enter file queue) file text k'
      ((citations (v.compiler.scan text)).filterMap
        (Walk.site v options (k.enter file queue) k'.files file).edge?) added) :
    Faithful w options Up Has k'.files k'.deps k'.marks ∧ ∀ q ∈ k'.queue, Up q := by
  have hfile : Up file := hup file List.mem_cons_self
  obtain ⟨hloaded, hhas⟩ := h.loads hs hv hfile hvis.loads
  have ht := hvis.touches
  have hcase : k.deps.case = k.files.case := h.deps_case.trans h.files_case.symm
  have hkey : k.files.key file = file.text := h.key hs hfile
  have hnames : (Walk.site v options (k.enter file queue) k'.files file).world.compiler.NamesAs
    w.compiler := hv.names
  refine ⟨⟨hloaded.files_case, ht.deps_case.trans h.deps_case, hloaded.kept, hloaded.stored, ?_⟩,
    ?_⟩
  · intro key hk
    rcases (ht.isValid_iff key).1 hk with rfl | hk
    · obtain ⟨source, hg, rfl⟩ := hvis.loads.get?
      rw [ht.edgesAt_self hcase, hkey]
      rw [FileStore.get?, ht.key, hkey] at hg
      rw [hv.names.scan] at accepted ⊢
      exact ⟨source, hg, traces_filterMap hnames accepted⟩
    · rw [ht.edgesAt_of_valid hcase hnot hk]
      exact hloaded.valid key hk
  · refine ht.forall_queue (fun q hm ↦ hup q (List.mem_cons_of_mem file hm)) fun e he ↦ ?_
    obtain ⟨c, hc, hce⟩ := hvis.cited e he
    rw [hv.names.scan] at hc
    exact hs.cites file text e.target hfile hhas (cites_of_edge? hnames hc hce)

theorem Faithful.steps (hs : Surveyed w options Up Has) (hv : Fair w Up Has v)
    (hsteps : ReflTransGen (Walk.Step v options) k k')
    (h : Faithful w options Up Has k.files k.deps k.marks) (hup : ∀ q ∈ k.queue, Up q) :
    Faithful w options Up Has k'.files k'.deps k'.marks ∧ ∀ q ∈ k'.queue, Up q := by
  induction hsteps with
  | refl => exact ⟨h, hup⟩
  | tail _ hstep ih =>
    obtain ⟨h, hup⟩ := ih
    cases hstep with
    | skip hq _ => exact ⟨h, fun q hm ↦ hup q (hq ▸ List.mem_cons_of_mem _ hm)⟩
    | visit hq hnot accepted hvis => exact h.visit hs hv (hq ▸ hup) hnot accepted hvis

theorem Faithful.abandon {c : Walk} {r : Except CompileError Unit} {calls : List Call}
    (h : Faithful w options Up Has k.files k.deps k.marks) (hs : Surveyed w options Up Has)
    (hv : Fair w Up Has v) (hup : ∀ q ∈ k.queue, Up q) (hfrom : Walk.From c k)
    (hq : k.queue = file :: queue) (hnot : isValid k.marks (k.files.key file) = false)
    (hvisit : Walk.visit v options (k.enter file queue) file = ⟨r, k', calls⟩) :
    Faithful w options Up Has k'.abandon.files k'.abandon.deps k'.abandon.marks := by
  obtain ⟨new, added, ht, -⟩ := Walk.touches_of_visit hvisit
  have hcase : k.deps.case = k.files.case := h.deps_case.trans h.files_case.symm
  have hloaded : Faithful w options Up Has k'.files k.deps k.marks := by
    rcases Walk.visits_of_visit hvisit with rfl | ⟨text, _, _, hvis⟩
    · exact h
    · exact (h.loads hs hv (hup file (hq ▸ List.mem_cons_self)) hvis.loads).1
  refine ⟨hloaded.files_case, (Walk.abandon_case k').trans (ht.deps_case.trans h.deps_case),
    hloaded.kept, hloaded.stored, ?_⟩
  intro key hk
  have hk : isValid k.marks key = true :=
    (hfrom.valid key).2 (Or.inl (((hfrom.touch hq hnot ht).isValid_abandon key).1 hk))
  rw [Walk.abandon_edgesAt, ht.edgesAt_of_valid hcase hnot hk]
  exact hloaded.valid key hk

theorem Faithful.run (h : Faithful w options Up Has k.files k.deps k.marks)
    (hs : Surveyed w options Up Has) (hv : Fair w Up Has v) (hup : ∀ q ∈ k.queue, Up q)
    (hstart : k.analyzed = []) :
    let k' := (Walk.run v options k).state
    Faithful w options Up Has k'.files k'.deps k'.marks := by
  intro k'
  have hfrom := Walk.from_start (h.deps_case.trans h.files_case.symm) hstart
  obtain ⟨k₁, hsteps, ⟨-, hstate, -⟩ | ⟨file, queue, e, k₂, calls, hq, hnot, hvisit, -, hstate⟩⟩ :=
    Walk.run_cases v options k
  · rw [show k' = k₁ from hstate]
    exact (Faithful.steps hs hv hsteps h hup).1
  · rw [show k' = k₂.abandon from hstate]
    obtain ⟨h₁, hup₁⟩ := Faithful.steps hs hv hsteps h hup
    exact h₁.abandon hs hv hup₁ (hfrom.steps hsteps) hq hnot hvisit

end Walking

end Analysis

namespace Compilation

open Analysis (Fair Surveyed Traces)

variable {w : World} {Up : Path → Prop} {Has : Path → String → Prop}

variable (w Up Has) in
structure Faithful (c : Compilation) : Prop where
  surveyed : Surveyed w c.options Up Has
  records : Analysis.Faithful w c.options Up Has c.files c.deps c.marks

section Changing

variable {v : World} {c : Compilation} {p : Path} {text : String}

theorem faithful_make {options : Json.Object} (hs : Surveyed w options Up Has) :
    (make options .sensitive).Faithful w Up Has := by
  refine ⟨hs, rfl, rfl, FileStore.kept_empty .sensitive, ?_, ?_⟩
  · intro key source hk
    rw [make, Std.ExtTreeMap.getElem?_empty] at hk
    cases hk
  · intro key hk
    rw [Analysis.isValid, make, Std.ExtTreeMap.getElem?_empty] at hk
    cases hk

theorem Faithful.key (h : c.Faithful w Up Has) (hup : Up p.normalize) :
    c.files.key p = p.normalize.text :=
  (PathCase.key_normalize c.files.case p).symm.trans (h.records.key h.surveyed hup)

theorem Faithful.received (h : c.Faithful w Up Has) (hup : Up p.normalize)
    (hhas : Has p.normalize text) : (c.received p text).Faithful w Up Has := by
  have hkey := h.key hup
  have hcase := FileStore.case_update c.files p text true
  obtain ⟨version, hget⟩ := FileStore.getElem?_update h.records.kept p text true
  have hstored : ∀ key source, (c.files.update p text true).2.files[key]? = some source →
      Up ⟨key⟩ ∧ Has ⟨key⟩ source.text := by
    intro key source hk
    rw [hget, hkey] at hk
    split at hk
    · rename_i he
      obtain rfl := Option.some.inj hk
      exact he ▸ ⟨hup, hhas⟩
    · exact h.records.stored key source hk
  rw [Compilation.received]
  split
  · refine ⟨h.surveyed, hcase.trans h.records.files_case, h.records.deps_case,
      h.records.kept.update p text true, hstored, ?_⟩
    intro key hk
    obtain ⟨hne, hk⟩ := Analysis.isValid_of_insert_invalid hk
    obtain ⟨source, hsource, ht⟩ := h.records.valid key hk
    have hne : c.files.key p ≠ key := FileStore.key_eq_key_of_case hcase p ▸ hne
    exact ⟨source, (hget key).trans ((if_neg hne).trans hsource), ht⟩
  · rename_i hu
    refine ⟨h.surveyed, hcase.trans h.records.files_case, h.records.deps_case,
      h.records.kept.update p text true, hstored, ?_⟩
    intro key hk
    obtain ⟨source, hsource, ht⟩ := h.records.valid key hk
    by_cases he : c.files.key p = key
    · obtain ⟨file, hfile, rfl⟩ :=
        FileStore.text_of_update h.records.kept (eq_false_of_ne_true hu)
      rw [FileStore.get?, he, hsource] at hfile
      obtain rfl := Option.some.inj hfile
      exact ⟨_, (hget key).trans (if_pos he), ht⟩
    · exact ⟨source, (hget key).trans ((if_neg he).trans hsource), ht⟩

theorem Faithful.remove (h : c.Faithful w Up Has) (p : Path) :
    (c.remove p).2.Faithful w Up Has := by
  have hdeps : c.deps.key p = c.files.key p :=
    Analysis.key_eq_files_key (h.records.deps_case.trans h.records.files_case.symm) p
  refine ⟨h.surveyed, (FileStore.case_remove c.files p).trans h.records.files_case,
    h.records.deps_case, h.records.kept.remove p, ?_, ?_⟩
  · intro key source hk
    have hk := (FileStore.getElem?_remove c.files p key).symm.trans hk
    split at hk
    · cases hk
    · exact h.records.stored key source hk
  · intro key hk
    obtain ⟨hne, hk⟩ := Analysis.isValid_of_erase hk
    obtain ⟨source, hsource, ht⟩ := h.records.valid key hk
    have hedges : (c.deps.remove p).edges[key]? = c.deps.edges[key]? :=
      Analysis.getElem?_erase_of_ne (hdeps ▸ hne.symm)
    have ht : Traces w c.options ⟨key⟩ source.text ((c.deps.remove p).edgesAt key) := by
      rw [Dependencies.edgesAt, hedges]
      exact ht
    exact ⟨source, (FileStore.getElem?_remove c.files p key).trans ((if_neg hne).trans hsource),
      ht⟩

theorem Faithful.check (h : c.Faithful w Up Has) (hv : Fair w Up Has v) (hup : Up p.normalize) :
    ((check v p).run c).state.Faithful w Up Has := by
  rw [run_check]
  have hq : ∀ q ∈ (c.walk p).queue, Up q := by
    intro q hq
    obtain rfl := List.mem_singleton.1 hq
    exact hup
  exact ⟨h.surveyed, Analysis.Faithful.run (k := c.walk p) h.records h.surveyed hv hq rfl⟩

end Changing

end Compilation

end TypedLoader
