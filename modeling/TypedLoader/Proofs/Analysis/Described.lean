import Mathlib.Data.List.Basic
import TypedLoader.Proofs.Analysis.Alike
import TypedLoader.Proofs.Analysis.Walk
import TypedLoader.Proofs.Path.Plain

namespace TypedLoader

open Relation (ReflTransGen)

namespace Analysis

variable (w : World) (options : Json.Object)

/-- The files that the text of a file refers to: modules that its imports
resolve to, referenced paths that are there, and types that it names. -/
inductive Refers (file : Path) : Path → Prop
  | module {text name : String} {r : ResolvedModule} (read : w.files.read file = .ok text)
      (cited : name ∈ (w.compiler.scan text).imports)
      (found : w.compiler.resolveModule name file options = .ok (some r)) :
      Refers file r.file.normalize
  | path {text reference : String} (read : w.files.read file = .ok text)
      (cited : reference ∈ (w.compiler.scan text).paths)
      (there : w.files.isFile (referenced file reference) = true) :
      Refers file (referenced file reference)
  | types {text name : String} {r : ResolvedTypes} (read : w.files.read file = .ok text)
      (cited : name ∈ (w.compiler.scan text).types)
      (found : w.compiler.resolveTypes name file options = .ok (some r)) :
      Refers file r.file.normalize

/-- The roots, and everything that they refer to, directly or through others. -/
inductive ReachedFrom (roots : List Path) : Path → Prop
  | root {p : Path} (h : p ∈ roots) : ReachedFrom roots p.normalize
  | refers {p q : Path} (h : ReachedFrom roots p) (hr : Refers w options p q) : ReachedFrom roots q

/-- No path that comes up holds a backslash, whether or not it is there. -/
structure BackslashFree (roots : List Path) : Prop where
  reached : ∀ p, ReachedFrom w options roots p → p.IsPlain
  referenced : ∀ p text reference, ReachedFrom w options roots p → w.files.read p = .ok text →
    reference ∈ (w.compiler.scan text).paths → (referenced p reference).IsPlain

def lone (file : Path) : Site where
  world := w
  options := options
  file := file
  valid _ := false
  stored _ := false

def linksOf (file : Path) (text : String) : List Edge :=
  (citations (w.compiler.scan text)).filterMap (lone w options file).edge?

/-- A file that can be read and whose citations are not refused. -/
structure Accepts (file : Path) (text : String) : Prop where
  read : w.files.read file = .ok text
  citations : ∀ c ∈ citations (w.compiler.scan text), ¬(lone w options file).Refuses c

def record (file : Path) (text : String) : Dependencies :=
  ((Links.linkAll (lone w options file) (w.compiler.scan text)).run
    ⟨{ case := .sensitive }, []⟩).state.deps

section References

variable {w : World} {options : Json.Object} {roots : List Path} {file p q : Path} {text : String}

theorem refers_of_mem_linksOf (hr : w.files.read file = .ok text) {e : Edge}
    (he : e ∈ linksOf w options file text) : Refers w options file e.target := by
  obtain ⟨c, hc, hce⟩ := List.mem_filterMap.1 he
  rcases mem_citations.1 hc with ⟨name, hm, rfl⟩ | ⟨reference, hm, rfl⟩ | ⟨name, hm, rfl⟩
  · rw [Site.edge?] at hce
    split at hce
    · rename_i r found
      obtain rfl := Option.some.inj hce
      exact .module hr hm found
    · cases hce
  · rw [Site.edge?] at hce
    split at hce
    · rename_i there
      obtain rfl := Option.some.inj hce
      exact .path hr hm there
    · cases hce
  · rw [Site.edge?] at hce
    split at hce
    · rename_i r found
      obtain rfl := Option.some.inj hce
      exact .types hr hm found
    · cases hce

theorem refers_iff (hr : w.files.read file = .ok text) :
    Refers w options file q ↔ ∃ e ∈ linksOf w options file text, e.target = q := by
  have hmem {c : Citation} {e : Edge} (hc : c ∈ citations (w.compiler.scan text))
      (he : (lone w options file).edge? c = some e) : e ∈ linksOf w options file text :=
    List.mem_filterMap.2 ⟨c, hc, he⟩
  constructor
  · intro h
    cases h with
    | @module _ name r read cited found =>
      obtain rfl := Except.ok.inj (hr.symm.trans read)
      refine ⟨Site.edgeTo r.file.normalize,
        hmem (mem_citations.2 (Or.inl ⟨name, cited, rfl⟩)) ?_, rfl⟩
      rw [Site.edge?, lone, found]
    | @path _ reference read cited there =>
      obtain rfl := Except.ok.inj (hr.symm.trans read)
      refine ⟨Site.edgeTo (referenced file reference),
        hmem (mem_citations.2 (Or.inr (Or.inl ⟨reference, cited, rfl⟩))) ?_, rfl⟩
      exact if_pos there
    | @types _ name r read cited found =>
      obtain rfl := Except.ok.inj (hr.symm.trans read)
      refine ⟨⟨r.file.normalize, .typeReference⟩,
        hmem (mem_citations.2 (Or.inr (Or.inr ⟨name, cited, rfl⟩))) ?_, rfl⟩
      rw [Site.edge?, lone, found]
  · rintro ⟨e, he, rfl⟩
    exact refers_of_mem_linksOf hr he

theorem run_lone
    (h : ∀ c ∈ citations (w.compiler.scan text), ¬(lone w options file).Refuses c) :
    let o := (Links.linkAll (lone w options file) (w.compiler.scan text)).run
      ⟨{ case := .sensitive }, []⟩
    o.result = .ok () ∧ o.state.deps.edgesOf file = linksOf w options file text := by
  obtain ⟨new, added, he, -, ⟨hok, hnew, -⟩ | ⟨_, _, -, c, hc, hr⟩⟩ := run_linkAll_clear
    (lone w options file) (w.compiler.scan text) { case := .sensitive } []
  · have hclear : ({ case := .sensitive } : Dependencies).clear (lone w options file).file =
        { case := .sensitive } := by
      simp [Dependencies.clear]
    have hedges := he.edges
    rw [edgesOf_clear, List.nil_append, hnew] at hedges
    rw [hclear] at hok hedges
    exact ⟨hok, hedges⟩
  · exact absurd hr.refuses (h c hc)

theorem edgesOf_record (h : Accepts w options file text) :
    (record w options file text).edgesOf file = linksOf w options file text :=
  (run_lone h.citations).2

theorem normalize_of_refers (h : Refers w options p q) : q.normalize = q := by
  cases h <;> exact Path.normalize_normalize _

theorem ReachedFrom.normalize (h : ReachedFrom w options roots p) : p.normalize = p := by
  cases h with
  | root _ => exact Path.normalize_normalize _
  | refers _ hr => exact normalize_of_refers hr

theorem BackslashFree.key (hb : BackslashFree w options roots) (h : ReachedFrom w options roots p) :
    PathCase.sensitive.key p = p.text :=
  Path.key_of_isPlain (hb.reached p h) h.normalize

end References

structure Unseen (files : FileStore) (deps : Dependencies) (marks : Marks) (key : String) :
    Prop where
  mark : marks[key]? = none
  file : files.files[key]? = none
  edges : deps.edges[key]? = none
  modules : deps.modules[key]? = none
  types : deps.types[key]? = none

/-- Only files that are reached have been analysed. Each is stored as it was
read, with what it refers to by itself, and the declaration files known are those
that an analysed file refers to. -/
structure Described (w : World) (options : Json.Object) (roots : List Path) (files : FileStore)
    (deps : Dependencies) (marks : Marks) : Prop where
  files_case : files.case = .sensitive
  deps_case : deps.case = .sensitive
  valid : ∀ p : Path, isValid marks p.text = true → ReachedFrom w options roots p ∧
    ∃ text, Accepts w options p text ∧ files.files[p.text]? = some ⟨p, text, 0⟩ ∧
      Alike p (record w options p text) deps
  unseen : ∀ key, isValid marks key = false → Unseen files deps marks key
  known : ∀ key, key ∈ deps.declarations ↔ ∃ p text, isValid marks p.text = true ∧
    Accepts w options p text ∧
      ∃ e ∈ linksOf w options p text, e.kind ≠ .source ∧ e.target.text = key
  versions : files.projectVersion = files.files.size ∧ files.generation = files.files.size

section Describing

variable {w : World} {options : Json.Object} {roots : List Path} {k k' : Walk} {file p : Path}
  {queue : List Path} {text : String} {added : List Path}

theorem described_empty (w : World) (options : Json.Object) (roots : List Path) :
    Described w options roots { case := .sensitive } { case := .sensitive } ∅ where
  files_case := rfl
  deps_case := rfl
  valid p h := by
    rw [isValid, Std.ExtTreeMap.getElem?_empty] at h
    cases h
  unseen key _ := by constructor <;> exact Std.ExtTreeMap.getElem?_empty
  known key := by
    refine ⟨fun h ↦ absurd h Std.ExtTreeSet.not_mem_empty, ?_⟩
    rintro ⟨p, text, h, -⟩
    rw [isValid, Std.ExtTreeMap.getElem?_empty] at h
    cases h
  versions := ⟨rfl, rfl⟩

theorem Walk.Loads.of_not_mem {files files' : FileStore} (h : Walk.Loads w files file text files')
    (hn : files.get? file = none) :
    w.files.read file = .ok text ∧ files' = files.add file text := by
  cases h with
  | stored hs =>
    rw [hn] at hs
    cases hs
  | read _ hr => exact ⟨hr, rfl⟩

theorem Described.files_key {files : FileStore} {deps : Dependencies} {marks : Marks}
    (h : Described w options roots files deps marks) (hb : BackslashFree w options roots)
    (hp : ReachedFrom w options roots p) : files.key p = p.text := by
  rw [FileStore.key, h.files_case, hb.key hp]

theorem Described.deps_key {files : FileStore} {deps : Dependencies} {marks : Marks}
    (h : Described w options roots files deps marks) (hb : BackslashFree w options roots)
    (hp : ReachedFrom w options roots p) : deps.key p = p.text := by
  rw [Dependencies.key, h.deps_case, hb.key hp]

theorem Described.get?_eq_none {files : FileStore} {deps : Dependencies} {marks : Marks}
    (h : Described w options roots files deps marks) (hb : BackslashFree w options roots)
    (hp : ReachedFrom w options roots p) (hv : isValid marks p.text = false) :
    files.get? p = none := by
  rw [FileStore.get?, h.files_key hb hp]
  exact (h.unseen p.text hv).file

theorem Described.read (h : Described w options roots k.files k.deps k.marks) {key : String}
    (hk : key ∈ k.files.files) : ∃ text, w.files.read ⟨key⟩ = .ok text := by
  cases hv : isValid k.marks key with
  | true =>
    obtain ⟨-, text, ha, -⟩ := h.valid ⟨key⟩ hv
    exact ⟨text, ha.read⟩
  | false =>
    rw [Std.ExtTreeMap.mem_iff_isSome_getElem?, (h.unseen key hv).file] at hk
    cases hk

/-- A file that comes up in a walk is seen as it is seen when nothing is stored. -/
theorem Described.edge? (hfiles : ∀ p, w.files.isFile p = true ↔ ∃ text, w.files.read p = .ok text)
    (hb : BackslashFree w options roots) (h : Described w options roots k.files k.deps k.marks)
    (hr : ReachedFrom w options roots file) (hread : w.files.read file = .ok text) {c : Citation}
    (hc : c ∈ citations (w.compiler.scan text)) (k₁ : Walk) :
    (Walk.site w options k₁ (k.files.add file text) file).edge? c =
      (lone w options file).edge? c := by
  have hsees : Sees (lone w options file) (Walk.site w options k₁ (k.files.add file text) file) :=
    ⟨rfl, rfl, rfl⟩
  apply hsees.edge?
  intro reference hreference hnone
  subst hreference
  have hmem : reference ∈ (w.compiler.scan text).paths := by simpa [mem_citations] using hc
  have hkey : PathCase.sensitive.key (referenced file reference) =
      (referenced file reference).text :=
    Path.key_of_isPlain (hb.referenced file text reference hr hread hmem)
      (Path.normalize_normalize _)
  change (k.files.add file text).has (referenced file reference) = false
  have hn : ¬∃ text, w.files.read (referenced file reference) = .ok text := by
    rw [← hfiles]
    exact ne_true_of_eq_false hnone
  refine eq_false_of_ne_true fun hs ↦ hn ?_
  rw [FileStore.has, Std.ExtTreeMap.contains_iff_mem, FileStore.add, FileStore.mem_put,
    FileStore.key, FileStore.key, FileStore.put, h.files_case, hkey, hb.key hr] at hs
  rcases hs with hs | hs
  · have he : file = referenced file reference := congrArg Path.mk hs
    exact ⟨text, (congrArg w.files.read he.symm).trans hread⟩
  · exact h.read hs

theorem Described.visits
    (hfiles : ∀ p, w.files.isFile p = true ↔ ∃ text, w.files.read p = .ok text)
    (hb : BackslashFree w options roots) (h : Described w options roots k.files k.deps k.marks)
    (hr : ReachedFrom w options roots file) (hv : isValid k.marks file.text = false)
    (accepted : ∀ c ∈ citations (w.compiler.scan text),
      ¬(Walk.site w options (k.enter file queue) k'.files file).Refuses c)
    (hvis : Walk.Visits w options (k.enter file queue) file text k'
      ((citations (w.compiler.scan text)).filterMap
        (Walk.site w options (k.enter file queue) k'.files file).edge?) added) :
    Accepts w options file text ∧ k'.files = k.files.add file text ∧
      Alike file (record w options file text) k'.deps ∧
      Walk.Visits w options (k.enter file queue) file text k' (linksOf w options file text)
        added := by
  obtain ⟨hread, hadd⟩ := hvis.loads.of_not_mem (h.get?_eq_none hb hr hv)
  have hadd : k'.files = k.files.add file text := hadd
  have hsees : Sees (lone w options file)
      (Walk.site w options (k.enter file queue) k'.files file) := ⟨rfl, rfl, rfl⟩
  have hedge : ∀ c ∈ citations (w.compiler.scan text),
      (Walk.site w options (k.enter file queue) k'.files file).edge? c =
        (lone w options file).edge? c := by
    rw [hadd]
    exact fun c hc ↦ h.edge? hfiles hb hr hread hc _
  have haccepts : Accepts w options file text :=
    ⟨hread, fun c hc hrefuses ↦ accepted c hc ((hsees.refuses_iff c).2 hrefuses)⟩
  refine ⟨haccepts, hadd, ?_, ?_⟩
  · have hstart : Alike file (⟨{ case := .sensitive }, []⟩ : Links).deps
        (⟨k.deps.clear file, queue⟩ : Links).deps := h.deps_case ▸ alike_clear k.deps file
    rw [hvis.deps, Links.run_linkAll, record, Links.run_linkAll]
    exact (Alike.citations hsees hedge hstart).2
  · rw [List.filterMap_congr hedge] at hvis
    exact hvis

theorem Described.getElem?_add (hb : BackslashFree w options roots)
    (h : Described w options roots k.files k.deps k.marks) (hr : ReachedFrom w options roots file)
    (text key : String) : (k.files.add file text).files[key]? =
      if file.text = key then some ⟨file, text, 0⟩ else k.files.files[key]? := by
  rw [FileStore.add, FileStore.getElem?_put, h.files_key hb hr, hr.normalize]

section Visiting

variable (hb : BackslashFree w options roots) (h : Described w options roots k.files k.deps k.marks)
  (hr : ReachedFrom w options roots file) (hv : isValid k.marks file.text = false)
  (hvis : Walk.Visits w options (k.enter file queue) file text k' (linksOf w options file text)
    added)

include hb h hr hvis

theorem Described.isValid_visit (key : String) :
    isValid k'.marks key = true ↔ file.text = key ∨ isValid k.marks key = true := by
  rw [hvis.touches.isValid_iff, h.files_key hb hr]

theorem Described.sameElsewhere_visit : SameElsewhere file.text k.deps k'.deps := by
  have hsame := (sameElsewhere_clear k.deps file).trans hvis.links.elsewhere
  exact h.deps_key hb hr ▸ hsame

include hv in
theorem Described.valid_visit (haccepts : Accepts w options file text)
    (hadd : k'.files = k.files.add file text)
    (halike : Alike file (record w options file text) k'.deps)
    (hp : isValid k'.marks p.text = true) : ReachedFrom w options roots p ∧
      ∃ text, Accepts w options p text ∧ k'.files.files[p.text]? = some ⟨p, text, 0⟩ ∧
        Alike p (record w options p text) k'.deps := by
  rw [hadd]
  rcases (h.isValid_visit hb hr hvis p.text).1 hp with he | hp
  · obtain rfl : file = p := congrArg Path.mk he
    exact ⟨hr, text, haccepts, by rw [h.getElem?_add hb hr, if_pos rfl], halike⟩
  · have hne : file.text ≠ p.text := by
      intro he
      rw [he, hp] at hv
      cases hv
    obtain ⟨hrp, textp, hap, hfp, hlp⟩ := h.valid p hp
    have hkey : (record w options p textp).key p = p.text := hlp.key ▸ h.deps_key hb hrp
    have halike : Alike p (record w options p textp) k'.deps :=
      hlp.elsewhere (h.sameElsewhere_visit hb hr hvis) hvis.touches.deps_case (hkey ▸ hne.symm)
    exact ⟨hrp, textp, hap, by rw [h.getElem?_add hb hr, if_neg hne, hfp], halike⟩

theorem Described.unseen_visit (hadd : k'.files = k.files.add file text) {key : String}
    (hk : isValid k'.marks key = false) : Unseen k'.files k'.deps k'.marks key := by
  have hn := not_or.1 ((h.isValid_visit hb hr hvis key).not.1 (ne_true_of_eq_false hk))
  have hne : key ≠ file.text := Ne.symm hn.1
  have hu := h.unseen key (eq_false_of_ne_true hn.2)
  have hsame := h.sameElsewhere_visit hb hr hvis
  refine ⟨?_, ?_, (hsame.edges key hne).trans hu.edges, (hsame.modules key hne).trans hu.modules,
    (hsame.types key hne).trans hu.types⟩
  · rw [hvis.touches.marks, h.files_key hb hr, Std.ExtTreeMap.getElem?_insert, if_neg, hu.mark]
    exact fun he ↦ hn.1 (Std.LawfulEqCmp.eq_of_compare he)
  · rw [hadd, h.getElem?_add hb hr, if_neg hn.1, hu.file]

theorem Described.known_visit (haccepts : Accepts w options file text) (key : String) :
    key ∈ k'.deps.declarations ↔ ∃ p text, isValid k'.marks p.text = true ∧
      Accepts w options p text ∧
      ∃ e ∈ linksOf w options p text, e.kind ≠ .source ∧ e.target.text = key := by
  -- the paths that come up are their own keys
  have htarget {e : Edge} (he : e ∈ linksOf w options file text) :
      (k.deps.clear file).key e.target = e.target.text :=
    h.deps_key hb (.refers hr (refers_of_mem_linksOf haccepts.read he))
  have hvalid (key : String) := h.isValid_visit hb hr hvis key
  rw [hvis.links.known]
  constructor
  · rintro (hd | ⟨e, he, hsource, hek⟩)
    · obtain ⟨p, textp, hp, hap, hep⟩ := (h.known key).1 hd
      exact ⟨p, textp, (hvalid p.text).2 (Or.inr hp), hap, hep⟩
    · exact ⟨file, text, (hvalid _).2 (Or.inl rfl), haccepts, e, he, hsource,
        (htarget he).symm.trans hek⟩
  · rintro ⟨p, textp, hp, hap, e, he, hsource, hek⟩
    rcases (hvalid p.text).1 hp with hpe | hp
    · obtain rfl : file = p := congrArg Path.mk hpe
      obtain rfl := Except.ok.inj (haccepts.read.symm.trans hap.read)
      exact Or.inr ⟨e, he, hsource, (htarget he).trans hek⟩
    · exact Or.inl ((h.known key).2 ⟨p, textp, hp, hap, e, he, hsource, hek⟩)

omit hvis in
include hv in
theorem Described.size_add (text : String) :
    (k.files.add file text).files.size = k.files.files.size + 1 := by
  have hn : k.files.files.contains (k.files.key file) = false := by
    rw [h.files_key hb hr, Std.ExtTreeMap.contains_eq_isSome_getElem?,
      (h.unseen file.text hv).file]
    rfl
  rw [FileStore.add, FileStore.put, Std.ExtTreeMap.size_insert, hn]
  rfl

include hv in
theorem Described.visit (haccepts : Accepts w options file text)
    (hadd : k'.files = k.files.add file text)
    (halike : Alike file (record w options file text) k'.deps) :
    Described w options roots k'.files k'.deps k'.marks where
  files_case := hvis.touches.case.trans h.files_case
  deps_case := hvis.touches.deps_case.trans h.deps_case
  valid _ := h.valid_visit hb hr hv hvis haccepts hadd halike
  unseen _ := h.unseen_visit hb hr hvis hadd
  known := h.known_visit hb hr hvis haccepts
  versions := by
    rw [hadd, h.size_add hb hr hv]
    exact ⟨congrArg (· + 1) h.versions.1, congrArg (· + 1) h.versions.2⟩

end Visiting

theorem Described.step
    (hfiles : ∀ p, w.files.isFile p = true ↔ ∃ text, w.files.read p = .ok text)
    (hb : BackslashFree w options roots) (h : Described w options roots k.files k.deps k.marks)
    (hq : ∀ q ∈ k.queue, ReachedFrom w options roots q) (hs : Walk.Step w options k k') :
    Described w options roots k'.files k'.deps k'.marks ∧
      ∀ q ∈ k'.queue, ReachedFrom w options roots q := by
  cases hs with
  | skip hqueue _ =>
    rw [hqueue] at hq
    exact ⟨h, fun q hm ↦ hq q (List.mem_cons_of_mem _ hm)⟩
  | @visit _ file queue text added hqueue hv accepted hvis =>
    rw [hqueue] at hq
    have hr := hq file List.mem_cons_self
    rw [h.files_key hb hr] at hv
    obtain ⟨haccepts, hadd, halike, hvis⟩ := h.visits hfiles hb hr hv accepted hvis
    refine ⟨h.visit hb hr hv hvis haccepts hadd halike, ?_⟩
    refine hvis.touches.forall_queue (fun q hm ↦ hq q (List.mem_cons_of_mem file hm)) fun e he ↦ ?_
    exact .refers hr (refers_of_mem_linksOf haccepts.read he)

theorem Described.steps
    (hfiles : ∀ p, w.files.isFile p = true ↔ ∃ text, w.files.read p = .ok text)
    (hb : BackslashFree w options roots) (h : Described w options roots k.files k.deps k.marks)
    (hq : ∀ q ∈ k.queue, ReachedFrom w options roots q)
    (hs : ReflTransGen (Walk.Step w options) k k') :
    Described w options roots k'.files k'.deps k'.marks ∧
      ∀ q ∈ k'.queue, ReachedFrom w options roots q := by
  induction hs with
  | refl => exact ⟨h, hq⟩
  | tail _ hs ih => exact ih.1.step hfiles hb ih.2 hs

theorem Described.no_error (hb : BackslashFree w options roots)
    (h : Described w options roots k.files k.deps k.marks) (hr : ReachedFrom w options roots file)
    (hv : isValid k.marks (k.files.key file) = false) (ha : Accepts w options file text)
    {e : CompileError} {calls : List Call} :
    Walk.visit w options (k.enter file queue) file ≠ ⟨.error e, k', calls⟩ := by
  intro hvisit
  rcases Walk.visit_cases w options (k.enter file queue) file with
    ⟨cause, _, -, hread, -⟩ |
    ⟨text', k₁, _, new, added, hvis, ⟨hok, -⟩ | ⟨_, _, -, c, hc, hrefusal⟩⟩
  · rw [ha.read] at hread
    cases hread
  · rw [hvisit] at hok
    cases hok
  · rw [h.files_key hb hr] at hv
    have hread := (hvis.loads.of_not_mem (h.get?_eq_none hb hr hv)).1
    obtain rfl := Except.ok.inj (ha.read.symm.trans hread)
    have hsees : Sees (lone w options file)
        (Walk.site w options (k.enter file queue) k₁.files file) := ⟨rfl, rfl, rfl⟩
    exact ha.citations c hc ((hsees.refuses_iff c).1 hrefusal.refuses)

end Describing

end Analysis

end TypedLoader
