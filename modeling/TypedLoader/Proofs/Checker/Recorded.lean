import TypedLoader.Proofs.Analysis.Faithful
import TypedLoader.Proofs.Checker.Reported
import TypedLoader.Proofs.Path.Raw

namespace TypedLoader

namespace Session

open Analysis (Cites Fair Links Surveyed importLinks lone pathLinks typeLinks)

/-- The texts that a file may have: those sent for it, and those read from it. -/
inductive Offered (history : List (World × Request)) (p : Path) (text : String) : Prop
  | sent {v : World} {r : Request} {file : Path} (h : (v, r) ∈ history)
      (ht : r.text? = some (file, text)) (hp : file.normalize = p)
  | read {v : World} {r : Request} (h : (v, r) ∈ history) (ht : v.files.read p = .ok text)

/-- The files for which texts are sent, and all that their texts cite, directly or
through others. -/
inductive ComesUp (w : World) (history : List (World × Request)) : Path → Prop
  | sent {v : World} {r : Request} {file : Path} {text : String} (h : (v, r) ∈ history)
      (ht : r.text? = some (file, text)) : ComesUp w history file.normalize
  | cited {v : World} {setup : Setup} {p q : Path} {text : String} (h : ComesUp w history p)
      (ht : Offered history p text) (hs : (v, .init setup) ∈ history)
      (hc : Cites w setup.options p text q) : ComesUp w history q

/-- Names mean what they mean in `w` all the time, paths are compared by case, and
none that comes up holds a backslash. -/
structure Steady (w : World) (history : List (World × Request)) : Prop where
  names : ∀ x ∈ history, x.1.compiler.NamesAs w.compiler
  case : ∀ x ∈ history, ∀ setup, x.2 = .init setup →
    setup.settings.case.getD x.1.defaultCase = .sensitive
  plain : ∀ p, ComesUp w history p → p.IsPlain

section Recording

variable {w : World} {history : List (World × Request)} {p : Path}

theorem ComesUp.normalize (h : ComesUp w history p) : p.normalize = p := by
  cases h with
  | sent _ _ => exact Path.normalize_normalize _
  | cited _ _ _ hc => cases hc <;> exact Path.normalize_normalize _

theorem Steady.surveyed (h : Steady w history) {v : World} {setup : Setup}
    (hs : (v, .init setup) ∈ history) :
    Surveyed w setup.options (ComesUp w history) (Offered history) where
  normal _ hp := hp.normalize
  plain := h.plain
  cites _ _ _ hp ht hc := .cited hp ht hs hc

theorem Steady.fair (h : Steady w history) {x : World × Request} (hx : x ∈ history) :
    Fair w (ComesUp w history) (Offered history) x.1 where
  names := h.names x hx
  reads _ _ _ ht := .read hx ht

theorem Steady.kept (h : Steady w history) {x : World × Request} (hx : x ∈ history) :
    Kept (Compilation.Faithful w (ComesUp w history) (Offered history)) x.1 x.2 := by
  obtain ⟨v, r⟩ := x
  constructor
  case make =>
    rintro setup rfl
    rw [h.case _ hx setup rfl]
    exact Compilation.faithful_make (h.surveyed hx)
  case received =>
    intro file text ht c hc
    exact hc.received (.sent hx ht) (.sent hx ht rfl)
  case check =>
    intro file text ht c hc
    exact hc.check (h.fair hx) (.sent hx ht)
  case remove => exact fun _ c hc ↦ hc.remove _
  case built => exact fun _ _ hc ↦ ⟨hc.surveyed, hc.records⟩

/-- A valid file is stored, and an analysis of its text that begins with nothing
succeeds. Both have recorded the edges of the imports of the text and of the types
that it names, and between these edges to paths that it refers to. -/
theorem edges_as_anew (w : World) (history : List (World × Request)) (h : Steady w history)
    (t : Started) (ht : (({} : Session).through history).started = some t) (p : Path)
    (hp : p.IsPlain) (hv : t.compilation.isValid p = true) :
    ∃ source, t.compilation.get? p = some source ∧
      let refs := w.compiler.scan source.text
      let anew := (Links.linkAll (lone w t.compilation.options p.normalize) refs).run
        ⟨{ case := .sensitive }, []⟩
      anew.result = .ok () ∧ ∃ between between',
        between.Sublist (pathLinks p.normalize refs) ∧
        between'.Sublist (pathLinks p.normalize refs) ∧
        t.compilation.deps.edgesOf p =
          importLinks w t.compilation.options p.normalize refs ++ between ++
            typeLinks w t.compilation.options p.normalize refs ∧
        anew.state.deps.edgesOf p.normalize =
          importLinks w t.compilation.options p.normalize refs ++ between' ++
            typeLinks w t.compilation.options p.normalize refs := by
  have hfaithful := (holds_empty _).through (fun x hx ↦ h.kept hx) t ht
  have hcase := hfaithful.records.deps_case.trans hfaithful.records.files_case.symm
  have hkey : t.compilation.files.key p = p.normalize.text := by
    rw [FileStore.key, hfaithful.records.files_case, ← PathCase.key_normalize,
      Path.key_of_isPlain hp.normalize (Path.normalize_normalize p)]
  rw [Compilation.isValid, hkey] at hv
  obtain ⟨source, hsource, htraces⟩ := hfaithful.records.valid _ hv
  obtain ⟨between, hsub, hedges⟩ := htraces.edges
  obtain ⟨hok, htraces'⟩ := htraces.anew
  obtain ⟨between', hsub', hedges'⟩ := htraces'.edges
  have hdeps : t.compilation.deps.key p = p.normalize.text :=
    (Analysis.key_eq_files_key hcase p).trans hkey
  have hget : t.compilation.get? p = some source := by
    rw [Compilation.get?, FileStore.get?, hkey]
    exact hsource
  rw [← hdeps] at hedges
  refine ⟨source, hget, hok, between, between', hsub, hsub', ?_, hedges'⟩
  rw [Dependencies.edgesOf, hedges, hdeps]

def cycle : MemoryFiles := ⟨[(⟨"/a.ts"⟩, "/b.d.ts"), (⟨"/b.d.ts"⟩, "/a.ts")]⟩

/-- The first analysis fails, since the file that is imported is missing. -/
def cycleHistory : List (World × Request) :=
  let setup : Setup :=
    { compiler := ⟨"importing", "1"⟩, settings := { case := some .sensitive }, options := [] }
  [(.importing ⟨[]⟩, .init setup), (.importing ⟨[]⟩, .registerFile ⟨"/a.ts"⟩ "/b.d.ts"),
    (.importing cycle, .registerFile ⟨"/a.ts"⟩ "/b.d.ts")]

theorem text_of_offered {file : Path} {text : String} (h : Offered cycleHistory file text) :
    text = "/b.d.ts" ∨ text = "/a.ts" := by
  cases h with
  | sent h ht =>
    simp only [cycleHistory, List.mem_cons, Prod.mk.injEq, List.not_mem_nil, or_false] at h
    rcases h with ⟨-, rfl⟩ | ⟨-, rfl⟩ | ⟨-, rfl⟩
    · cases ht
    · exact Or.inl (congrArg Prod.snd (Option.some.inj ht)).symm
    · exact Or.inl (congrArg Prod.snd (Option.some.inj ht)).symm
  | read h ht =>
    have hread (m : MemoryFiles) (hm : ∀ f ∈ m.files, f ∈ cycle.files)
        (ht : (World.importing m).files.read file = .ok text) :
        text = "/b.d.ts" ∨ text = "/a.ts" := by
      obtain ⟨before, after, he, -⟩ := List.lookup_eq_some_iff.1 (World.read_importing.1 ht)
      have hc := hm (file.normalize, text) (by simp [he])
      simp only [cycle, List.mem_cons, Prod.mk.injEq, List.not_mem_nil, or_false] at hc
      exact hc.imp And.right And.right
    simp only [cycleHistory, List.mem_cons, Prod.mk.injEq, List.not_mem_nil, or_false] at h
    rcases h with ⟨rfl, -⟩ | ⟨rfl, -⟩ | ⟨rfl, -⟩
    · exact hread _ (by simp) ht
    · exact hread _ (by simp) ht
    · exact hread _ (by simp) ht

theorem steady_cycleHistory : Steady (.importing cycle) cycleHistory := by
  constructor
  case names =>
    intro x hx
    simp only [cycleHistory, List.mem_cons, List.not_mem_nil, or_false] at hx
    rcases hx with rfl | rfl | rfl <;> exact ⟨rfl, rfl, rfl⟩
  case case =>
    intro x hx setup hs
    simp only [cycleHistory, List.mem_cons, List.not_mem_nil, or_false] at hx
    rcases hx with rfl | rfl | rfl
    · obtain rfl := Request.init.inj hs
      rfl
    · cases hs
    · cases hs
  case plain =>
    intro p hp
    cases hp with
    | sent h ht =>
      simp only [cycleHistory, List.mem_cons, Prod.mk.injEq, List.not_mem_nil, or_false] at h
      rcases h with ⟨-, rfl⟩ | ⟨-, rfl⟩ | ⟨-, rfl⟩
      · cases ht
      all_goals
        obtain rfl := congrArg Prod.fst (Option.some.inj ht)
        decide
    | cited _ ht _ hc =>
      have htext := text_of_offered ht
      cases hc with
      | module cited found =>
        obtain ⟨-, he⟩ := World.citations_importing
          (Analysis.mem_citations.2 (Or.inl ⟨_, cited, rfl⟩))
        obtain rfl := Analysis.Citation.module.inj he
        obtain rfl := Option.some.inj (Except.ok.inj found)
        rcases htext with rfl | rfl <;> decide
      | path cited => cases cited
      | types cited _ => cases cited

theorem supplied_of_faithful {c : Compilation} {Up : Path → Prop}
    (h : c.Faithful (.importing cycle) Up (Offered cycleHistory)) :
    World.Supplied cycle c.files := by
  refine ⟨by decide, ?_⟩
  intro key source hs
  rcases text_of_offered (h.records.stored key source hs).2 with he | he
  · exact Or.inr (he ▸ by decide)
  · exact Or.inr (he ▸ by decide)

theorem edges_of_cycle :
    Steady (.importing cycle) cycleHistory ∧
      ∃ t, (({} : Session).through cycleHistory).started = some t ∧
        t.compilation.isValid ⟨"/a.ts"⟩ = true ∧ ∃ source,
          t.compilation.get? ⟨"/a.ts"⟩ = some source ∧
          t.compilation.deps.edgesOf ⟨"/a.ts"⟩ = importLinks (.importing cycle)
            t.compilation.options ⟨"/a.ts"⟩ ((World.importing cycle).compiler.scan source.text) := by
  have h := steady_cycleHistory
  let s₁ := ({} : Session).through (cycleHistory.take 2)
  let r := Request.registerFile ⟨"/a.ts"⟩ "/b.d.ts"
  obtain ⟨t₁, hs₁⟩ : ∃ t, s₁.started = some t :=
    ⟨_, started_onCompilation (t := ⟨Compilation.make [] .sensitive, _, _⟩) rfl _⟩
  have hfaithful := (holds_empty _).through (fun x hx ↦ h.kept (List.mem_of_mem_take hx)) t₁ hs₁
  have hmem : (World.importing cycle, r) ∈ cycleHistory := by simp [cycleHistory, r]
  have hsupplied := supplied_of_faithful
    (hfaithful.received (p := ⟨"/a.ts"⟩) (.sent hmem rfl) (.sent hmem rfl rfl))
  obtain ⟨analysed, hok, -⟩ := Compilation.check_importing (p := ⟨"/a.ts"⟩) hsupplied (by decide)
  obtain ⟨payload, hok⟩ := handle_register hs₁ hok
  obtain ⟨t, t', ht, ht', hsynced, -⟩ := synced_handle (Or.inr rfl) hok
  obtain rfl : t₁ = t := Option.some.inj (hs₁.symm.trans ht)
  have htidy := (tidy_empty.through _) t₁ hs₁
  obtain ⟨analysed, hcheck⟩ := hsynced.analysed
  obtain ⟨hvalid, -⟩ := (htidy.received ⟨"/a.ts"⟩ "/b.d.ts").check_ok hcheck
  rw [← hsynced.marks, ← hsynced.deps, Analysis.key_eq_files_key (hsynced.tidy htidy).case]
    at hvalid
  obtain ⟨source, hget, -, between, between', hsub, -, hedges, -⟩ :=
    edges_as_anew _ cycleHistory h t' ht' ⟨"/a.ts"⟩ (by decide) hvalid
  refine ⟨h, t', ht', hvalid, source, hget, ?_⟩
  obtain rfl := List.eq_nil_of_sublist_nil hsub
  rw [List.append_nil] at hedges
  exact hedges.trans (List.append_nil _)

/-- Every text names a file beside its own file; the empty text names none. -/
def beside (m : MemoryFiles) : World :=
  { World.importing m with
    compiler := { (World.importing m).compiler with
      resolveModule name file _ := .ok (some ⟨(file.parent?.getD ⟨""⟩).join ⟨name⟩, false⟩) } }

/-- A file that another one imports is given a new spelling, in which it lies in another folder. -/
def respelled : List (World × Request) :=
  let w := beside ⟨[(⟨"/a\\b.ts"⟩, "c.ts"), (⟨"/c.ts"⟩, "")]⟩
  let setup : Setup :=
    { compiler := ⟨"importing", "1"⟩, settings := { case := some .sensitive }, options := [] }
  [(w, .init setup), (w, .registerFile ⟨"/m.ts"⟩ "a\\b.ts"),
    (w, .updateFile ⟨"/a/b.ts"⟩ "c.ts" false)]

/-- The edges that were recorded under the old spelling stay, since the text is the same. Paths
with bytes that are no text are spelled anew without a backslash. -/
theorem edges_not_as_anew :
    let w := beside ⟨[(⟨"/a\\b.ts"⟩, "c.ts"), (⟨"/c.ts"⟩, "")]⟩
    (∀ x ∈ respelled, x.1 = w ∧ ∀ file text, x.2.text? = some (file, text) → file.IsPlain) ∧
      (∃ t, (({} : Session).through respelled).started = some t ∧
        t.compilation.isValid ⟨"/a/b.ts"⟩ = true ∧
        t.compilation.get? ⟨"/a/b.ts"⟩ = some ⟨⟨"/a/b.ts"⟩, "c.ts", 0⟩ ∧
        t.compilation.deps.edgesOf ⟨"/a/b.ts"⟩ = [⟨⟨"/c.ts"⟩, .source⟩] ∧
        importLinks w t.compilation.options ⟨"/a/b.ts"⟩ (w.compiler.scan "c.ts") =
          [⟨⟨"/a/c.ts"⟩, .source⟩]) ∧
      RawPath.Collide (.stray 0xFE) (.stray 0xFF) := by
  intro w
  let c : Compilation := .make [] .sensitive
  let ended := Analysis.Walk.ended? w [] 5 ((c.received ⟨"/m.ts"⟩ "a\\b.ts").walk ⟨"/m.ts"⟩)
  have hended : ended.map (fun k ↦
      let c' := updateFile ⟨"/a/b.ts"⟩ "c.ts" false (c.settled ⟨"/m.ts"⟩ "a\\b.ts" k)
      (c'.isValid ⟨"/a/b.ts"⟩, c'.get? ⟨"/a/b.ts"⟩, c'.deps.edgesOf ⟨"/a/b.ts"⟩)) =
        some (true, some ⟨⟨"/a/b.ts"⟩, "c.ts", 0⟩, [⟨⟨"/c.ts"⟩, .source⟩]) := by decide +kernel
  obtain ⟨k, hk, hview⟩ := Option.map_eq_some_iff.1 hended
  simp only [Prod.mk.injEq] at hview
  obtain ⟨hvalid, hget, hedges⟩ := hview
  refine ⟨?_, ?_, RawPath.collide_stray⟩
  · intro x hx
    simp only [respelled, List.mem_cons, List.not_mem_nil, or_false] at hx
    rcases hx with rfl | rfl | rfl
    all_goals
      refine ⟨rfl, fun file text ht ↦ ?_⟩
      cases ht
    all_goals decide
  · obtain ⟨t, hs, hc⟩ : ∃ t, (({} : Session).through (respelled.take 1)).started = some t ∧
        t.compilation = c := ⟨_, rfl, rfl⟩
    obtain ⟨-, hregistered⟩ := register_of_ended? hs (by rw [hc]; exact hk)
    rw [hc] at hregistered
    have hupdated := started_onCompilation hregistered fun _ ↦ do
      Action.modify (updateFile ⟨"/a/b.ts"⟩ "c.ts" false)
      pure Json.null
    have hanew (options : Json.Object) : importLinks w options ⟨"/a/b.ts"⟩ (w.compiler.scan "c.ts") =
        importLinks w [] ⟨"/a/b.ts"⟩ (w.compiler.scan "c.ts") := rfl
    exact ⟨_, hupdated, hvalid, hget, hedges, (hanew _).trans (by decide +kernel)⟩

end Recording

end Session

end TypedLoader
