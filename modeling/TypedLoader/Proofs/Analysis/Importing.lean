import TypedLoader.Proofs.Analysis.Closed

namespace TypedLoader

open Relation (ReflTransGen)

theorem MemoryFiles.contains_normalize (m : MemoryFiles) (p : Path) :
    m.contains p.normalize = m.contains p := by
  rw [contains, find?, Path.normalize_normalize]
  rfl

namespace World

open Analysis (Citation Site TypesDeclared Walk citations)

/-- Every text is the path of the file that it imports; the empty text imports
none. -/
def importing (m : MemoryFiles) : World where
  compiler := {
    info := ⟨"importing", "1"⟩
    scan text := { imports := if text.isEmpty then [] else [text] }
    resolveModule name _ _ := .ok (some ⟨⟨name⟩, false⟩)
    resolveTypes _ _ _ := .ok none
    build _ := .error "no program"
    transpile text _ _ := .ok { text } }
  files := m.toFileSystem

def Finds (m : MemoryFiles) (text : String) : Prop := text = "" ∨ m.contains ⟨text⟩ = true

instance (m : MemoryFiles) : DecidablePred (Finds m) :=
  fun text ↦ inferInstanceAs (Decidable (text = "" ∨ m.contains ⟨text⟩ = true))

variable {m : MemoryFiles} {options : Json.Object} {k k' : Walk} {file : Path} {text : String}

theorem read_importing : (importing m).files.read file = .ok text ↔ m.find? file = some text := by
  rw [importing, MemoryFiles.toFileSystem]
  cases h : m.find? file <;> simp [h]

theorem isFile_importing (m : MemoryFiles) (file : Path) :
    (importing m).files.isFile file = true ↔ ∃ text, (importing m).files.read file = .ok text := by
  simp only [read_importing]
  exact Option.isSome_iff_exists

theorem citations_importing {c : Citation}
    (hc : c ∈ citations ((importing m).compiler.scan text)) :
    text ≠ "" ∧ c = .module text := by
  have hc : c ∈ citations { imports := if text.isEmpty then [] else [text] } := hc
  cases he : text.isEmpty with
  | true =>
    rw [he] at hc
    cases hc
  | false =>
    rw [he] at hc
    refine ⟨?_, List.mem_singleton.1 hc⟩
    intro h
    rw [h] at he
    cases he

/-- Every text that is there or stored imports nothing, or a file that is there. -/
def Supplied (m : MemoryFiles) (files : FileStore) : Prop :=
  (∀ file ∈ m.files, Finds m file.2) ∧
    ∀ (key : String) (source : SourceFile), files.files[key]? = some source → Finds m source.text

theorem supplied_empty (case : PathCase) (hm : ∀ file ∈ m.files, Finds m file.2) :
    Supplied m { case } := by
  refine ⟨hm, ?_⟩
  intro key source hs
  rw [Std.ExtTreeMap.getElem?_empty] at hs
  cases hs

theorem Supplied.put {files : FileStore} (hc : Supplied m files) (hf : Finds m text) (p : Path)
    (version : Nat) : Supplied m (files.put p text version) := by
  refine ⟨hc.1, ?_⟩
  intro key source hs
  rw [FileStore.getElem?_put] at hs
  split at hs
  · obtain rfl := Option.some.inj hs
    exact hf
  · exact hc.2 key source hs

theorem Supplied.of_find? {files : FileStore} (hc : Supplied m files)
    (h : m.find? file = some text) : Finds m text := by
  obtain ⟨before, after, he, -⟩ := List.lookup_eq_some_iff.1 h
  exact hc.1 (file.normalize, text) (he ▸ List.mem_append_right before List.mem_cons_self)

theorem Supplied.loads {files files' : FileStore} (hc : Supplied m files)
    (h : Walk.Loads (importing m) files file text files') :
    Finds m text ∧ Supplied m files' := by
  cases h with
  | @stored source hs => exact ⟨hc.2 _ source hs, hc⟩
  | read _ hr =>
    have hfinds := hc.of_find? (read_importing.1 hr)
    exact ⟨hfinds, hc.put hfinds file 0⟩

theorem Finds.target (hf : Finds m text) {s : Site} (hs : s.world = importing m)
    {c : Citation} (hc : c ∈ citations ((importing m).compiler.scan text))
    {e : Edge} (he : s.edge? c = some e) : m.contains e.target = true := by
  obtain ⟨hne, rfl⟩ := citations_importing hc
  rw [Site.edge?, hs] at he
  obtain rfl := Option.some.inj he
  exact (m.contains_normalize ⟨text⟩).trans (hf.resolve_left hne)

theorem Supplied.step (hc : Supplied m k.files) (hq : ∀ q ∈ k.queue, m.contains q = true)
    (hs : Walk.Step (importing m) options k k') :
    Supplied m k'.files ∧ ∀ q ∈ k'.queue, m.contains q = true := by
  cases hs with
  | skip hqueue _ =>
    rw [hqueue] at hq
    exact ⟨hc, fun q hm ↦ hq q (List.mem_cons_of_mem _ hm)⟩
  | @visit _ file queue text added hqueue _ _ hvis =>
    rw [hqueue] at hq
    obtain ⟨hfinds, hc'⟩ := hc.loads hvis.loads
    refine ⟨hc', ?_⟩
    refine hvis.touches.forall_queue (fun q hm ↦ hq q (List.mem_cons_of_mem file hm)) fun e he ↦ ?_
    obtain ⟨c, hcited, hce⟩ := hvis.cited e he
    exact hfinds.target rfl hcited hce

theorem Supplied.steps (hc : Supplied m k.files) (hq : ∀ q ∈ k.queue, m.contains q = true)
    (hs : ReflTransGen (Walk.Step (importing m) options) k k') :
    Supplied m k'.files ∧ ∀ q ∈ k'.queue, m.contains q = true := by
  induction hs with
  | refl => exact ⟨hc, hq⟩
  | tail _ hs ih => exact ih.1.step ih.2 hs

/-- A walk succeeds when no import leads to a file that is missing. -/
theorem Supplied.run (hc : Supplied m k.files) (hq : ∀ q ∈ k.queue, m.contains q = true) :
    (Walk.run (importing m) options k).result = .ok () := by
  obtain ⟨k₁, hs, ⟨hok, -⟩ | ⟨file, queue, e, k₂, calls, hqueue, -, hvisit, -⟩⟩ :=
    Walk.run_cases (importing m) options k
  · exact hok
  rcases Walk.visit_cases (importing m) options (k₁.enter file queue) file with
    ⟨cause, _, -, hread, -⟩ |
    ⟨text, k₂, _, new, added, hvis, ⟨hok, -⟩ | ⟨_, _, -, c, hcited, hrefusal⟩⟩
  · have hcontains := (hc.steps hq hs).2 file (hqueue ▸ List.mem_cons_self)
    obtain ⟨text, ht⟩ := (isFile_importing m file).1 hcontains
    rw [ht] at hread
    cases hread
  · rw [hvisit] at hok
    cases hok
  · obtain ⟨-, rfl⟩ := citations_importing hcited
    obtain ⟨e, he⟩ := hrefusal.refuses
    cases he

end World

theorem Compilation.check_importing {m : MemoryFiles} {c : Compilation} {p : Path}
    (hc : World.Supplied m c.files) (hp : m.contains p = true) :
    ∃ analysed, ((check (World.importing m) p).run c).result = .ok analysed ∧
      World.Supplied m ((check (World.importing m) p).run c).state.files := by
  have hq : ∀ q ∈ (c.walk p).queue, m.contains q = true := by
    intro q hq
    obtain rfl := List.mem_singleton.1 hq
    exact (m.contains_normalize p).trans hp
  have hok : ∃ analysed, ((check (World.importing m) p).run c).result = .ok analysed := by
    rw [run_check]
    exact ⟨_, congrArg (Except.map _) (hc.run (k := c.walk p) hq)⟩
  obtain ⟨analysed, hok⟩ := hok
  obtain ⟨k, hsteps, -, hstate⟩ := walk_of_check_ok hok
  exact ⟨analysed, hok, hstate ▸ (hc.steps hq hsteps).1⟩

end TypedLoader
