import TypedLoader.Proofs.Analysis.Described
import TypedLoader.Proofs.Analysis.Importing
import TypedLoader.Proofs.Path.Raw

namespace TypedLoader

open Relation (ReflTransGen)

namespace Compilation

open Analysis (Citation ReachedFrom BackslashFree Accepts Described Walk)

def checkAll (w : World) (roots : List Path) : Act Unit :=
  roots.forM fun p ↦ do let _ ← check w p

structure Underway (w : World) (options : Json.Object) (roots : List Path) (c : Compilation) :
    Prop where
  options_eq : c.options = options
  built : c.built = none
  described : Described w options roots c.files c.deps c.marks
  closed : c.Closed
  kept : c.files.Kept

section Underway

variable {w : World} {options : Json.Object} {roots : List Path} {c c' : Compilation} {p : Path}

theorem underway_make (w : World) (options : Json.Object) (roots : List Path) :
    Underway w options roots (make options .sensitive) where
  options_eq := rfl
  built := rfl
  described := Analysis.described_empty w options roots
  closed := closed_make options .sensitive
  kept := FileStore.kept_empty .sensitive

theorem Underway.sensitive (h : Underway w options roots c) : c.Sensitive :=
  ⟨h.described.files_case, h.described.deps_case, h.kept⟩

theorem Underway.check
    (hfiles : ∀ p, w.files.isFile p = true ↔ ∃ text, w.files.read p = .ok text)
    (hb : BackslashFree w options roots) (h : Underway w options roots c) (hp : p ∈ roots) :
    (∃ a, ((check w p).run c).result = .ok a ∧ Underway w options roots ((check w p).run c).state ∧
      (∀ key, Analysis.isValid c.marks key = true →
        Analysis.isValid ((check w p).run c).state.marks key = true) ∧
      ((check w p).run c).state.isValid p = true) ∨
    (∃ e, ((check w p).run c).result = .error e) ∧
      ∃ q, ReachedFrom w options roots q ∧ ∀ text, ¬Accepts w options q text := by
  rw [run_check, h.options_eq]
  have hqueue : ∀ q ∈ (c.walk p).queue, ReachedFrom w options roots q := by
    intro q hq
    obtain rfl := List.mem_singleton.1 hq
    exact .root hp
  obtain ⟨k, hsteps, ⟨hok, hstate, hq⟩ | ⟨file, queue, e, k₂, calls, hq, hv, hvisit, herr, -⟩⟩ :=
    Walk.run_cases w options (c.walk p)
  all_goals obtain ⟨hd, hreached⟩ := Described.steps hfiles hb h.described hqueue hsteps
  · have hfrom := (h.sensitive.from_walk p).steps hsteps
    refine Or.inl ⟨_, congrArg (Except.map _) hok, ?_, ?_, ?_⟩
    all_goals simp only [hstate]
    · exact ⟨h.options_eq, h.built, hd,
        closed_of_covered ((h.closed.covered h.sensitive p).steps hsteps) hq, hfrom.kept h.kept⟩
    · exact fun key hv ↦ (hfrom.valid key).2 (Or.inl hv)
    · have hvalid : Analysis.isValid k.marks (k.files.key p) = true :=
        (hfrom.key p).symm ▸ isValid_of_steps hsteps hq
      exact hvalid
  · refine Or.inr ⟨⟨e, congrArg (Except.map _) herr⟩, file, ?_, ?_⟩
    · exact hreached file (hq ▸ List.mem_cons_self)
    · intro text ha
      exact hd.no_error hb (hreached file (hq ▸ List.mem_cons_self)) hv ha hvisit

theorem run_checkAll_cons (w : World) (p : Path) (l : List Path) (c : Compilation) :
    (checkAll w (p :: l)).run c =
      match (check w p).run c with
      | ⟨.ok _, c', calls⟩ => ((checkAll w l).run c').after calls
      | ⟨.error e, c', calls⟩ => ⟨.error e, c', calls⟩ := by
  rw [checkAll, Action.run_forM_cons, Action.run_bind, Action.run_bind]
  rcases (check w p).run c with ⟨e | a, c', calls⟩
  · rfl
  · simp only [Action.run_pure, Outcome.after, List.append_nil]
    rfl

theorem checkAll_importing {m : MemoryFiles} {l : List Path} (hc : World.Supplied m c.files)
    (hl : ∀ p ∈ l, m.contains p = true) :
    ((checkAll (.importing m) l).run c).result = .ok () := by
  induction l generalizing c with
  | nil => rfl
  | cons p l ih =>
    obtain ⟨hp, hl⟩ := List.forall_mem_cons.1 hl
    obtain ⟨analysed, hok, hc'⟩ := check_importing hc hp
    rw [run_checkAll_cons]
    rcases hrun : (check (.importing m) p).run c with ⟨r, c', calls⟩
    rw [hrun] at hok hc'
    obtain rfl : r = .ok analysed := hok
    exact ih hc' hl

/-- What analysing files one after the other does: it fails only at a file that
is not accepted, and else it makes all of them valid. -/
theorem Underway.checkAll
    (hfiles : ∀ p, w.files.isFile p = true ↔ ∃ text, w.files.read p = .ok text)
    (hb : BackslashFree w options roots) {l : List Path} (h : Underway w options roots c)
    (hl : ∀ p ∈ l, p ∈ roots) :
    (((checkAll w l).run c).result = .ok () ∧
      Underway w options roots ((Compilation.checkAll w l).run c).state ∧
      (∀ key, Analysis.isValid c.marks key = true →
        Analysis.isValid ((Compilation.checkAll w l).run c).state.marks key = true) ∧
      ∀ p ∈ l, Analysis.isValid ((Compilation.checkAll w l).run c).state.marks
        (PathCase.sensitive.key p) = true) ∨
    (∃ e, ((Compilation.checkAll w l).run c).result = .error e) ∧
      ∃ q, ReachedFrom w options roots q ∧ ∀ text, ¬Accepts w options q text := by
  induction l generalizing c with
  | nil => exact Or.inl ⟨rfl, h, fun _ hv ↦ hv, by simp⟩
  | cons p l ih =>
    obtain ⟨hp, hl⟩ := List.forall_mem_cons.1 hl
    rw [run_checkAll_cons]
    rcases h.check hfiles hb hp with ⟨a, hok, hunder, hmono, hvalid⟩ | ⟨⟨e, herr⟩, hnone⟩
    · rcases hrun : (Compilation.check w p).run c with ⟨r, c₁, calls⟩
      rw [hrun] at hok hunder hmono hvalid
      obtain rfl : r = .ok a := hok
      rcases ih hunder hl with ⟨hok, hunder₂, hmono₂, hvalid₂⟩ | hfail
      · refine Or.inl ⟨hok, hunder₂, fun key hv ↦ hmono₂ key (hmono key hv),
          List.forall_mem_cons.2 ⟨hmono₂ _ ?_, hvalid₂⟩⟩
        rw [isValid, FileStore.key, hunder.described.files_case] at hvalid
        exact hvalid
      · exact Or.inr hfail
    · rcases hrun : (Compilation.check w p).run c with ⟨r, c₁, calls⟩
      rw [hrun] at herr
      obtain rfl : r = .error e := herr
      exact Or.inr ⟨⟨e, rfl⟩, hnone⟩

theorem Underway.isValid_iff (hb : BackslashFree w options roots) (h : Underway w options roots c)
    (hroots : ∀ p ∈ roots, Analysis.isValid c.marks (PathCase.sensitive.key p) = true) {q : Path} :
    Analysis.isValid c.marks q.text = true ↔ ReachedFrom w options roots q := by
  refine ⟨fun hv ↦ (h.described.valid q hv).1, ?_⟩
  intro hq
  induction hq with
  | @root p hp =>
    have hkey := hb.key (.root hp)
    rw [PathCase.key_normalize] at hkey
    exact hkey ▸ hroots p hp
  -- a valid file has the edges that it asks for, and they lead to valid files
  | @refers p q hp hrefers ih =>
    obtain ⟨-, text, ha, -, halike⟩ := h.described.valid p ih
    obtain ⟨e, he, rfl⟩ := (Analysis.refers_iff ha.read).1 hrefers
    have hedges : c.deps.edgesAt p.text = Analysis.linksOf w options p text := by
      rw [← Analysis.edgesOf_record ha, ← halike.edgesOf, Dependencies.edgesOf,
        h.described.deps_key hb hp]
    have hvalid := h.closed.edges p.text ih e (hedges ▸ he)
    rw [h.described.files_key hb (.refers hp hrefers)] at hvalid
    exact hvalid

theorem Underway.mem_files (h : Underway w options roots c) (key : String) :
    key ∈ c.files.files ↔ Analysis.isValid c.marks key = true := by
  refine ⟨?_, h.closed.stored key⟩
  intro hm
  cases hv : Analysis.isValid c.marks key with
  | true => rfl
  | false =>
    rw [Std.ExtTreeMap.mem_iff_isSome_getElem?, (h.described.unseen key hv).file] at hm
    cases hm

structure SameAt (c c' : Compilation) (key : String) : Prop where
  mark : c'.marks[key]? = c.marks[key]?
  file : c'.files.files[key]? = c.files.files[key]?
  edges : c'.deps.edges[key]? = c.deps.edges[key]?
  modules : c'.deps.modules[key]? = c.deps.modules[key]?
  types : c'.deps.types[key]? = c.deps.types[key]?

theorem Underway.sameAt (hb : BackslashFree w options roots) (h : Underway w options roots c)
    (h' : Underway w options roots c') {key : String}
    (hv : Analysis.isValid c'.marks key = Analysis.isValid c.marks key) : SameAt c c' key := by
  cases hk : Analysis.isValid c.marks key with
  | false =>
    have hu := h.described.unseen key hk
    have hu' := h'.described.unseen key (hv.trans hk)
    exact ⟨hu'.mark.trans hu.mark.symm, hu'.file.trans hu.file.symm, hu'.edges.trans hu.edges.symm,
      hu'.modules.trans hu.modules.symm, hu'.types.trans hu.types.symm⟩
  | true =>
    obtain ⟨hr, text, ha, hf, hl⟩ := h.described.valid ⟨key⟩ hk
    obtain ⟨-, text', ha', hf', hl'⟩ := h'.described.valid ⟨key⟩ (hv.trans hk)
    obtain rfl := Except.ok.inj (ha.read.symm.trans ha'.read)
    have hkey : (Analysis.record w options ⟨key⟩ text).key ⟨key⟩ = key :=
      hl.key ▸ h.described.deps_key hb hr
    have hedges := hl'.edges.trans hl.edges.symm
    have hmodules := hl'.modules.trans hl.modules.symm
    have htypes := hl'.types.trans hl.types.symm
    rw [hkey] at hedges hmodules htypes
    exact ⟨(beq_iff_eq.1 (hv.trans hk)).trans (beq_iff_eq.1 hk).symm, hf'.trans hf.symm, hedges,
      hmodules, htypes⟩

theorem Underway.ext (hb : BackslashFree w options roots) (h : Underway w options roots c)
    (h' : Underway w options roots c')
    (hv : ∀ key, Analysis.isValid c'.marks key = Analysis.isValid c.marks key) : c' = c := by
  have hsame (key : String) := h.sameAt hb h' (hv key)
  have hmarks : c'.marks = c.marks := Std.ExtTreeMap.ext_getElem? fun key ↦ (hsame key).mark
  have hmap : c'.files.files = c.files.files :=
    Std.ExtTreeMap.ext_getElem? fun key ↦ (hsame key).file
  have hknown : c'.deps.declarations = c.deps.declarations := by
    apply Std.ExtTreeSet.ext_mem
    intro key
    rw [h.described.known, h'.described.known]
    simp only [hv]
  have hfiles : c'.files = c.files := by
    -- nothing has been stored twice, so the versions count the files
    have hproject : c'.files.projectVersion = c.files.projectVersion := by
      rw [h'.described.versions.1, h.described.versions.1, hmap]
    have hgeneration : c'.files.generation = c.files.generation := by
      rw [h'.described.versions.2, h.described.versions.2, hmap]
    calc
      c'.files = ⟨c'.files.case, c'.files.files, c'.files.projectVersion,
        c'.files.generation⟩ := rfl
      _ = c.files := by
        rw [h'.described.files_case, ← h.described.files_case, hmap, hproject, hgeneration]
  have hdeps : c'.deps = c.deps := by
    have hedges : c'.deps.edges = c.deps.edges :=
      Std.ExtTreeMap.ext_getElem? fun key ↦ (hsame key).edges
    have hmodules : c'.deps.modules = c.deps.modules :=
      Std.ExtTreeMap.ext_getElem? fun key ↦ (hsame key).modules
    have htypes : c'.deps.types = c.deps.types :=
      Std.ExtTreeMap.ext_getElem? fun key ↦ (hsame key).types
    calc
      c'.deps = ⟨c'.deps.case, c'.deps.edges, c'.deps.modules, c'.deps.types,
        c'.deps.declarations⟩ := rfl
      _ = c.deps := by
        rw [h'.described.deps_case, ← h.described.deps_case, hedges, hmodules, htypes, hknown]
  calc
    c' = ⟨c'.options, c'.files, c'.deps, c'.marks, c'.built⟩ := rfl
    _ = c := by
      rw [h'.options_eq, ← h.options_eq, h'.built, ← h.built, hfiles, hdeps, hmarks]

/-- The analysis of files is complete, and does not depend on their order. When
it succeeds, it ends in the same state for every order of the files, and exactly
what they reach is stored, as it is read, and valid. -/
theorem checkAll_perm (w : World) (options : Json.Object) {roots roots' : List Path}
    (hfiles : ∀ p, w.files.isFile p = true ↔ ∃ text, w.files.read p = .ok text)
    (hb : BackslashFree w options roots) (hperm : roots.Perm roots')
    (hok : ((checkAll w roots).run (make options .sensitive)).result = .ok ()) :
    let o := (checkAll w roots).run (make options .sensitive)
    let o' := (checkAll w roots').run (make options .sensitive)
    o'.result = .ok () ∧ o'.state = o.state ∧
      (∀ q : Path, Analysis.isValid o.state.marks q.text = true ↔ ReachedFrom w options roots q) ∧
      (∀ key, key ∈ o.state.files.files ↔ Analysis.isValid o.state.marks key = true) ∧
      ∀ q, ReachedFrom w options roots q →
        ∃ text, w.files.read q = .ok text ∧ o.state.get? q = some ⟨q, text, 0⟩ := by
  have hmem (p : Path) : p ∈ roots ↔ p ∈ roots' := hperm.mem_iff
  have hstart := underway_make w options roots
  rcases hstart.checkAll hfiles hb (fun p hp ↦ hp) with ⟨-, hunder, -, hvalid⟩ | ⟨⟨e, herr⟩, -⟩
  · have hiff {q : Path} := hunder.isValid_iff hb hvalid (q := q)
    have haccepts (q : Path) (hq : ReachedFrom w options roots q) :
        ∃ text, Accepts w options q text := by
      obtain ⟨-, text, ha, -⟩ := hunder.described.valid q (hiff.2 hq)
      exact ⟨text, ha⟩
    rcases hstart.checkAll hfiles hb (fun p hp ↦ (hmem p).2 hp) with
      ⟨hok', hunder', -, hvalid'⟩ | ⟨-, q, hq, hnone⟩
    · have hiff' {q : Path} :=
        hunder'.isValid_iff hb (fun p hp ↦ hvalid' p ((hmem p).1 hp)) (q := q)
      refine ⟨hok', hunder.ext hb hunder' ?_, fun q ↦ hiff, hunder.mem_files,
        ?_⟩
      · intro key
        exact Bool.eq_iff_iff.2 ((hiff' (q := ⟨key⟩)).trans (hiff (q := ⟨key⟩)).symm)
      · intro q hq
        obtain ⟨-, text, ha, hf, -⟩ := hunder.described.valid q (hiff.2 hq)
        refine ⟨text, ha.read, ?_⟩
        rw [get?, FileStore.get?, hunder.described.files_key hb hq]
        exact hf
    · obtain ⟨text, ha⟩ := haccepts q hq
      exact absurd ha (hnone text)
  · rw [hok] at herr
    cases herr

theorem contains_of_reached {m : MemoryFiles} (hm : ∀ file ∈ m.files, World.Finds m file.2)
    (hroots : ∀ p ∈ roots, m.contains p = true)
    (hp : ReachedFrom (World.importing m) options roots p) :
    m.contains p = true ∧
      ((∃ q ∈ roots, q.normalize = p) ∨ ∃ file ∈ m.files, Path.normalize ⟨file.2⟩ = p) := by
  cases hp with
  | @root q hq => exact ⟨(m.contains_normalize q).trans (hroots q hq), Or.inl ⟨q, hq, rfl⟩⟩
  | @refers p q _ hr =>
    cases hr with
    | @module text name r hread cited found =>
      obtain ⟨hne, he⟩ :=
        World.citations_importing (Analysis.mem_citations.2 (Or.inl ⟨name, cited, rfl⟩))
      obtain rfl := Citation.module.inj he
      obtain rfl : (⟨⟨name⟩, false⟩ : ResolvedModule) = r := Option.some.inj (Except.ok.inj found)
      obtain ⟨before, after, hfiles, -⟩ := List.lookup_eq_some_iff.1 (World.read_importing.1 hread)
      have hmem : (p.normalize, name) ∈ m.files :=
        hfiles ▸ List.mem_append_right before List.mem_cons_self
      exact ⟨(m.contains_normalize ⟨name⟩).trans ((hm _ hmem).resolve_left hne),
        Or.inr ⟨_, hmem, rfl⟩⟩
    | path _ cited _ => cases cited
    | types _ cited _ => cases cited

theorem refers_importing {m : MemoryFiles} {text : String} (h : m.find? p = some text)
    (hne : text.isEmpty = false) :
    Analysis.Refers (World.importing m) options p (Path.normalize ⟨text⟩) := by
  have hcited : text ∈ ((World.importing m).compiler.scan text).imports := by
    have hmem : text ∈ if text.isEmpty then [] else [text] := by
      rw [hne]
      exact List.mem_singleton_self text
    exact hmem
  exact .module (r := ⟨⟨text⟩, false⟩) (World.read_importing.2 h) hcited rfl

theorem checkAll_perm_of_cycle :
    let m : MemoryFiles :=
      ⟨[(⟨"/a.ts"⟩, "/b.d.ts"), (⟨"/b.d.ts"⟩, "/a.ts"), (⟨"/c.ts"⟩, "/b.d.ts")]⟩
    let o := (checkAll (World.importing m) [⟨"/a.ts"⟩, ⟨"/c.ts"⟩]).run (make [] .sensitive)
    let o' := (checkAll (World.importing m) [⟨"/c.ts"⟩, ⟨"/a.ts"⟩]).run (make [] .sensitive)
    o.result = .ok () ∧ o'.result = .ok () ∧ o'.state = o.state ∧
      o.state.get? ⟨"/b.d.ts"⟩ = some ⟨⟨"/b.d.ts"⟩, "/a.ts", 0⟩ := by
  intro m o o'
  have hreached {p : Path}
      (hp : ReachedFrom (World.importing m) [] [⟨"/a.ts"⟩, ⟨"/c.ts"⟩] p) :=
    contains_of_reached (m := m) (by decide) (by decide) hp
  have hroots : ∀ p ∈ ([⟨"/a.ts"⟩, ⟨"/c.ts"⟩] : List Path), p.normalize.IsPlain := by decide
  have htexts : ∀ file ∈ m.files, (Path.normalize ⟨file.2⟩).IsPlain := by decide
  have hb : BackslashFree (World.importing m) [] [⟨"/a.ts"⟩, ⟨"/c.ts"⟩] := by
    refine ⟨?_, fun p text reference _ _ hcited ↦ by cases hcited⟩
    intro p hp
    rcases (hreached hp).2 with ⟨q, hq, rfl⟩ | ⟨file, hf, rfl⟩
    · exact hroots q hq
    · exact htexts file hf
  have hok : o.result = .ok () :=
    checkAll_importing (World.supplied_empty .sensitive (by decide)) (by decide)
  have hperm : ([⟨"/a.ts"⟩, ⟨"/c.ts"⟩] : List Path).Perm [⟨"/c.ts"⟩, ⟨"/a.ts"⟩] := by decide
  obtain ⟨hok', hstate, -, -, hstored⟩ :=
    checkAll_perm (World.importing m) [] (World.isFile_importing m) hb hperm hok
  have hroot : ReachedFrom (World.importing m) [] [⟨"/a.ts"⟩, ⟨"/c.ts"⟩] ⟨"/a.ts"⟩ := by
    have hnormal : Path.normalize ⟨"/a.ts"⟩ = ⟨"/a.ts"⟩ := by decide
    exact hnormal ▸ .root (p := ⟨"/a.ts"⟩) List.mem_cons_self
  have hb' : ReachedFrom (World.importing m) [] [⟨"/a.ts"⟩, ⟨"/c.ts"⟩] ⟨"/b.d.ts"⟩ := by
    have hnormal : Path.normalize ⟨"/b.d.ts"⟩ = ⟨"/b.d.ts"⟩ := by decide
    have hfind : m.find? ⟨"/a.ts"⟩ = some "/b.d.ts" := by decide
    have hrefers : Analysis.Refers (World.importing m) [] _ _ := refers_importing hfind (by decide)
    rw [hnormal] at hrefers
    exact hroot.refers hrefers
  obtain ⟨text, hread, hget⟩ := hstored _ hb'
  have htext : m.find? ⟨"/b.d.ts"⟩ = some "/a.ts" := by decide
  obtain rfl := Option.some.inj ((World.read_importing.1 hread).symm.trans htext)
  exact ⟨hok, hok', hstate, hget⟩

/-- Where a file that is reached has the key of another one, only one of them is stored. No root
needs a backslash for that, nor does any path if the bytes of some are no text. -/
theorem checkAll_not_exact :
    let m : MemoryFiles := ⟨[(⟨"/m.ts"⟩, "/a\\b.ts"), (⟨"/a\\b.ts"⟩, ""), (⟨"/a/b.ts"⟩, "")]⟩
    let roots : List Path := [⟨"/m.ts"⟩, ⟨"/a/b.ts"⟩]
    let o := (checkAll (World.importing m) roots).run (make [] .sensitive)
    (∀ p ∈ roots, p.IsPlain) ∧ o.result = .ok () ∧
      (∃ q, ReachedFrom (World.importing m) [] roots q ∧
        ∀ text version, o.state.get? q ≠ some ⟨q, text, version⟩) ∧
      RawPath.Collide (.stray 0xFE) (.stray 0xFF) := by
  intro m roots o
  have hok : o.result = .ok () :=
    checkAll_importing (World.supplied_empty .sensitive (by decide)) (by decide)
  have hnormal (p : Path) (hp : p ∈ m.files.map (·.1)) : p.normalize = p := by
    revert p
    decide
  have hmain : ReachedFrom (World.importing m) [] roots ⟨"/m.ts"⟩ := by
    have hroot : ReachedFrom (World.importing m) [] roots (Path.normalize ⟨"/m.ts"⟩) :=
      .root List.mem_cons_self
    rwa [hnormal _ (by decide)] at hroot
  have hback : ReachedFrom (World.importing m) [] roots ⟨"/a\\b.ts"⟩ := by
    have hfind : m.find? ⟨"/m.ts"⟩ = some "/a\\b.ts" := by decide
    have hrefers : Analysis.Refers (World.importing m) [] _ _ := refers_importing hfind (by decide)
    rw [hnormal _ (by decide)] at hrefers
    exact hmain.refers hrefers
  have hplain : ReachedFrom (World.importing m) [] roots ⟨"/a/b.ts"⟩ := by
    have hroot : ReachedFrom (World.importing m) [] roots (Path.normalize ⟨"/a/b.ts"⟩) :=
      .root (by decide)
    rwa [hnormal _ (by decide)] at hroot
  have hkey : o.state.files.key ⟨"/a\\b.ts"⟩ = o.state.files.key ⟨"/a/b.ts"⟩ := by
    rw [FileStore.key, FileStore.key]
    cases o.state.files.case <;> decide
  have hget : o.state.get? ⟨"/a\\b.ts"⟩ = o.state.get? ⟨"/a/b.ts"⟩ := by
    rw [get?, get?, FileStore.get?, FileStore.get?, hkey]
  refine ⟨by decide, hok, ?_, RawPath.collide_stray⟩
  by_cases h : ∃ text version, o.state.get? ⟨"/a/b.ts"⟩ = some ⟨⟨"/a/b.ts"⟩, text, version⟩
  · obtain ⟨text, version, h⟩ := h
    refine ⟨_, hback, fun text' version' h' ↦ ?_⟩
    rw [hget, h] at h'
    have hpath : (⟨"/a/b.ts"⟩ : Path) = ⟨"/a\\b.ts"⟩ :=
      congrArg SourceFile.path (Option.some.inj h')
    exact absurd hpath (by decide)
  · exact ⟨_, hplain, fun text version h' ↦ h ⟨text, version, h'⟩⟩

end Underway

end Compilation

end TypedLoader
