import TypedLoader.Analysis
import TypedLoader.Proofs.Dependencies.Memo
import TypedLoader.Proofs.Outcome
import TypedLoader.Proofs.Path.Normal

namespace TypedLoader

namespace Analysis

inductive Citation where
  | module (name : String)
  | path (reference : String)
  | types (name : String)

def citations (refs : References) : List Citation :=
  refs.imports.map .module ++ (refs.paths.map .path ++ refs.types.map .types)

theorem mem_citations {refs : References} {c : Citation} : c ∈ citations refs ↔
    (∃ name ∈ refs.imports, .module name = c) ∨ (∃ r ∈ refs.paths, .path r = c) ∨
      ∃ name ∈ refs.types, .types name = c := by
  simp only [citations, List.mem_append, List.mem_map]

namespace Links

def cite (s : Site) : Citation → Action Links CompileError Unit
  | .module name => linkImport s name
  | .path reference => Action.modify fun l ↦ l.linkPath s reference
  | .types name => linkTypes s name

theorem run_cite_paths (s : Site) (paths : List String) (l : Links) :
    ((paths.map .path).forM (cite s)).run l = ⟨.ok (), paths.foldl (linkPath s) l, []⟩ := by
  induction paths generalizing l with
  | nil => rfl
  | cons p paths ih =>
    rw [List.map_cons, Action.run_forM_cons, Action.run_bind, cite, Action.run_modify]
    simp only [ih]
    rfl

theorem run_linkAll (s : Site) (refs : References) (l : Links) :
    (linkAll s refs).run l = ((citations refs).forM (cite s)).run l := by
  have hm : (refs.imports.map .module).forM (cite s) = refs.imports.forM (linkImport s) :=
    Action.forM_map ..
  have ht : (refs.types.map .types).forM (cite s) = refs.types.forM (linkTypes s) :=
    Action.forM_map ..
  rw [citations, Action.run_forM_append, hm, linkAll, Action.run_bind, Action.run_bind]
  cases hi : (refs.imports.forM (linkImport s)).run l with
  | mk r t calls =>
    cases r with
    | error e => rfl
    | ok u =>
      have hp := run_cite_paths s refs.paths t
      simp only [Action.run_forM_append, ht]
      rw [Action.run_bind, Action.run_bind, hp]
      rfl

end Links

def referenced (file : Path) (reference : String) : Path :=
  ((file.parent?.getD ⟨""⟩).join ⟨reference⟩).normalize

namespace Site

def edgeTo (target : Path) : Edge :=
  ⟨target, if target.isDeclaration then .declaration else .source⟩

def edge? (s : Site) : Citation → Option Edge
  | .module name =>
    match s.world.compiler.resolveModule name s.file s.options with
    | .ok (some r) => some (edgeTo r.file.normalize)
    | _ => none
  | .path reference =>
    let target := referenced s.file reference
    if s.stored target || s.world.files.isFile target then some (edgeTo target) else none
  | .types name =>
    match s.world.compiler.resolveTypes name s.file s.options with
    | .ok (some r) => some ⟨r.file.normalize, .typeReference⟩
    | _ => none

def Refuses (s : Site) : Citation → Prop
  | .module name => ∃ e, s.world.compiler.resolveModule name s.file s.options = .error e
  | .path _ => False
  | .types name => ∃ e, s.world.compiler.resolveTypes name s.file s.options = .error e

/-- The name in a citation, and the reason for which the compiler does not resolve it. -/
inductive Refusal (s : Site) : Citation → String → String → Prop
  | module {name reason : String}
      (h : s.world.compiler.resolveModule name s.file s.options = .error reason) :
      Refusal s (.module name) name reason
  | types {name reason : String}
      (h : s.world.compiler.resolveTypes name s.file s.options = .error reason) :
      Refusal s (.types name) name reason

theorem Refusal.refuses {s : Site} {c : Citation} {name reason : String}
    (h : s.Refusal c name reason) : s.Refuses c := by
  cases h with
  | module h => exact ⟨reason, h⟩
  | types h => exact ⟨reason, h⟩

/-- What is remembered for the file is what the compiler says. -/
structure Fits (s : Site) (d : Dependencies) : Prop where
  modules : ∀ {name r}, d.moduleOf? s.file name = some r →
    s.world.compiler.resolveModule name s.file s.options = .ok (some r)
  types : ∀ {name r}, d.typesOf? s.file name = some r →
    s.world.compiler.resolveTypes name s.file s.options = .ok (some r)

end Site

namespace Links

def attach (s : Site) (l : Links) (e : Edge) : Links :=
  let l := { l with deps := l.deps.addEdge s.file e.target e.kind }
  if e.kind = .source then
    if s.valid e.target then l else { l with queue := l.queue ++ [e.target] }
  else l.announce e.target

theorem link_eq (s : Site) (l : Links) (target : Path) :
    l.link s target = l.attach s (Site.edgeTo target) := by
  rw [link, attach, Site.edgeTo]
  cases target.isDeclaration with
  | true => rfl
  | false =>
    simp only [Bool.false_eq_true, if_false, if_true]
    split <;> rfl

theorem linkPath_eq (s : Site) (l : Links) (reference : String) :
    l.linkPath s reference = (s.edge? (.path reference)).elim l (attach s l) := by
  rw [linkPath, Site.edge?, referenced]
  simp only [link_eq]
  split <;> rfl

end Links

structure Recalls (file : Path) (d d' : Dependencies) : Prop where
  case : d'.case = d.case
  edges : d'.edges = d.edges
  declarations : d'.declarations = d.declarations
  modules : ∀ key, key ≠ d.key file → d'.modules[key]? = d.modules[key]?
  types : ∀ key, key ≠ d.key file → d'.types[key]? = d.types[key]?

theorem Recalls.refl (file : Path) (d : Dependencies) : Recalls file d d :=
  ⟨rfl, rfl, rfl, fun _ _ ↦ rfl, fun _ _ ↦ rfl⟩

theorem key_eq_key_of_case {d d' : Dependencies} (h : d'.case = d.case) (p : Path) :
    d'.key p = d.key p := by
  rw [Dependencies.key, h, Dependencies.key]

namespace Site

variable {s : Site} {d : Dependencies} {name : String}

theorem Fits.addModule {r : ResolvedModule} (h : s.Fits d)
    (hr : s.world.compiler.resolveModule name s.file s.options = .ok (some r)) :
    s.Fits (d.addModule s.file name r) := by
  refine ⟨fun {name' r'} hm ↦ ?_, h.types⟩
  have hm : Memo.get? (Memo.add d.modules (d.key s.file) name r) (d.key s.file) name' =
      some r' := hm
  rw [Memo.get?_add] at hm
  split at hm
  · rename_i hn
    rw [← hn, hr, Option.some.inj hm]
  · exact h.modules hm

theorem Fits.addTypes {r : ResolvedTypes} (h : s.Fits d)
    (hr : s.world.compiler.resolveTypes name s.file s.options = .ok (some r)) :
    s.Fits (d.addTypes s.file name r) := by
  refine ⟨h.modules, fun {name' r'} hm ↦ ?_⟩
  have hm : Memo.get? (Memo.add d.types (d.key s.file) name r) (d.key s.file) name' =
      some r' := hm
  rw [Memo.get?_add] at hm
  split at hm
  · rename_i hn
    rw [← hn, hr, Option.some.inj hm]
  · exact h.types hm

theorem recalls_addModule (file : Path) (r : ResolvedModule) :
    Recalls file d (d.addModule file name r) :=
  ⟨rfl, rfl, rfl, fun _ hk ↦ Memo.getElem?_add_of_ne name r hk, fun _ _ ↦ rfl⟩

theorem recalls_addTypes (file : Path) (r : ResolvedTypes) :
    Recalls file d (d.addTypes file name r) :=
  ⟨rfl, rfl, rfl, fun _ _ ↦ rfl, fun _ hk ↦ Memo.getElem?_add_of_ne name r hk⟩

theorem Fits.run_resolveModule (h : s.Fits d) (name : String) :
    (∃ reason calls, s.world.compiler.resolveModule name s.file s.options = .error reason ∧
      (resolveModule s.world s.options s.file name).run d =
        ⟨.error (.unresolved s.file name reason), d, calls⟩) ∨
    ∃ found d' calls, s.world.compiler.resolveModule name s.file s.options = .ok found ∧
      Recalls s.file d d' ∧ s.Fits d' ∧
      (resolveModule s.world s.options s.file name).run d = ⟨.ok found, d', calls⟩ := by
  rw [Action.run, resolveModule]
  split
  · rename_i r hm
    exact Or.inr ⟨some r, d, [], h.modules hm, Recalls.refl s.file d, h, rfl⟩
  · split
    · rename_i reason hr
      exact Or.inl ⟨reason, _, hr, rfl⟩
    · rename_i hr
      exact Or.inr ⟨none, d, _, hr, Recalls.refl s.file d, h, rfl⟩
    · rename_i r hr
      exact Or.inr ⟨some r, _, _, hr, recalls_addModule s.file r, h.addModule hr, rfl⟩

theorem Fits.run_resolveTypes (h : s.Fits d) (name : String) :
    (∃ reason calls, s.world.compiler.resolveTypes name s.file s.options = .error reason ∧
      (resolveTypes s.world s.options s.file name).run d =
        ⟨.error (.unresolved s.file name reason), d, calls⟩) ∨
    ∃ found d' calls, s.world.compiler.resolveTypes name s.file s.options = .ok found ∧
      Recalls s.file d d' ∧ s.Fits d' ∧
      (resolveTypes s.world s.options s.file name).run d = ⟨.ok found, d', calls⟩ := by
  rw [Action.run, resolveTypes]
  split
  · rename_i r hm
    exact Or.inr ⟨some r, d, [], h.types hm, Recalls.refl s.file d, h, rfl⟩
  · split
    · rename_i reason hr
      exact Or.inl ⟨reason, _, hr, rfl⟩
    · rename_i hr
      exact Or.inr ⟨none, d, _, hr, Recalls.refl s.file d, h, rfl⟩
    · rename_i r hr
      exact Or.inr ⟨some r, _, _, hr, recalls_addTypes s.file r, h.addTypes hr, rfl⟩

end Site

namespace Links

variable {s : Site} {l : Links}

theorem run_onDeps {α : Type} (a : Action Dependencies CompileError α) (l : Links) :
    (onDeps a).run l = ⟨(a.run l.deps).result, { l with deps := (a.run l.deps).state },
      (a.run l.deps).calls⟩ := by
  rw [Action.run, onDeps, Action.within]
  rfl

theorem run_cite (h : s.Fits l.deps) (c : Citation) :
    (∃ name reason calls, s.Refusal c name reason ∧
      (cite s c).run l = ⟨.error (.unresolved s.file name reason), l, calls⟩) ∨
    (¬s.Refuses c ∧ ∃ d calls, Recalls s.file l.deps d ∧ s.Fits d ∧
      (cite s c).run l =
        ⟨.ok (), (s.edge? c).elim { l with deps := d } (attach s { l with deps := d }),
          calls⟩) := by
  cases c with
  | module name =>
    rw [cite, linkImport, Action.run_bind, run_onDeps]
    rcases h.run_resolveModule name with
      ⟨reason, calls, hr, hrun⟩ | ⟨found, d, calls, hr, hm, hf, hrun⟩
    · refine Or.inl ⟨name, reason, calls, .module hr, ?_⟩
      rw [hrun]
    · refine Or.inr ⟨?_, d, calls ++ [], hm, hf, ?_⟩
      · rintro ⟨e, he⟩
        rw [hr] at he
        cases he
      · rw [hrun, Site.edge?, hr]
        cases found with
        | none => rfl
        | some r =>
          simp only [Action.run_modify, link_eq]
          rfl
  | path reference =>
    refine Or.inr ⟨id, l.deps, [], Recalls.refl s.file l.deps, h, ?_⟩
    rw [cite, Action.run_modify, linkPath_eq]
  | types name =>
    rw [cite, linkTypes, Action.run_bind, run_onDeps]
    rcases h.run_resolveTypes name with
      ⟨reason, calls, hr, hrun⟩ | ⟨found, d, calls, hr, hm, hf, hrun⟩
    · refine Or.inl ⟨name, reason, calls, .types hr, ?_⟩
      rw [hrun]
    · refine Or.inr ⟨?_, d, calls ++ [], hm, hf, ?_⟩
      · rintro ⟨e, he⟩
        rw [hr] at he
        cases he
      · rw [hrun, Site.edge?, hr]
        cases found with
        | none => rfl
        | some r => rfl

end Links

structure SameElsewhere (key : String) (d d' : Dependencies) : Prop where
  edges : ∀ k, k ≠ key → d'.edges[k]? = d.edges[k]?
  modules : ∀ k, k ≠ key → d'.modules[k]? = d.modules[k]?
  types : ∀ k, k ≠ key → d'.types[k]? = d.types[k]?

theorem SameElsewhere.trans {key : String} {d₁ d₂ d₃ : Dependencies}
    (h : SameElsewhere key d₁ d₂) (h' : SameElsewhere key d₂ d₃) : SameElsewhere key d₁ d₃ :=
  ⟨fun k hk ↦ (h'.edges k hk).trans (h.edges k hk),
    fun k hk ↦ (h'.modules k hk).trans (h.modules k hk),
    fun k hk ↦ (h'.types k hk).trans (h.types k hk)⟩

/-- Recording has added the edges `new`, and has let the files `added` wait: files
that are not valid, and declaration files that were not known. -/
structure Extends (s : Site) (l l' : Links) (new : List Edge) (added : List Path) : Prop where
  case : l'.deps.case = l.deps.case
  edges : l'.deps.edgesOf s.file = l.deps.edgesOf s.file ++ new
  elsewhere : SameElsewhere (l.deps.key s.file) l.deps l'.deps
  known : ∀ key, key ∈ l'.deps.declarations ↔
    key ∈ l.deps.declarations ∨ ∃ e ∈ new, e.kind ≠ .source ∧ l.deps.key e.target = key
  queue : l'.queue = l.queue ++ added
  sources : ∀ e ∈ new, e.kind = .source → s.valid e.target = true ∨ e.target ∈ added
  declared : ∀ e ∈ new, e.kind ≠ .source → l.deps.key e.target ∈ l.deps.declarations ∨
    ∃ q ∈ added, l.deps.key q = l.deps.key e.target
  waiting : ∀ q ∈ added, ∃ e ∈ new, e.target = q ∧
    (e.kind = .source ∨ l.deps.key q ∉ l.deps.declarations)

namespace Extends

variable {s : Site} {l l₁ l₂ : Links} {new new' : List Edge} {added added' : List Path}

theorem of_recalls {d : Dependencies} (h : Recalls s.file l.deps d) :
    Extends s l { l with deps := d } [] [] where
  case := h.case
  edges := by
    rw [Dependencies.edgesOf, Dependencies.edgesAt, h.edges, key_eq_key_of_case h.case,
      List.append_nil]
    rfl
  elsewhere := ⟨fun k _ ↦ by rw [h.edges], h.modules, h.types⟩
  known := by simp [h.declarations]
  queue := (List.append_nil _).symm
  sources := by simp
  declared := by simp
  waiting := by simp

theorem refl (s : Site) (l : Links) : Extends s l l [] [] := of_recalls (Recalls.refl s.file l.deps)

theorem trans (h : Extends s l l₁ new added) (h' : Extends s l₁ l₂ new' added') :
    Extends s l l₂ (new ++ new') (added ++ added') := by
  have hkey := key_eq_key_of_case h.case
  constructor
  case case => exact h'.case.trans h.case
  case edges =>
    rw [h'.edges, h.edges, List.append_assoc]
  case elsewhere =>
    exact h.elsewhere.trans (hkey s.file ▸ h'.elsewhere)
  case known =>
    intro key
    rw [h'.known, h.known]
    simp only [hkey, List.mem_append, or_and_right, exists_or, or_assoc]
  case queue =>
    rw [h'.queue, h.queue, List.append_assoc]
  case sources =>
    intro e he hk
    rcases List.mem_append.1 he with he | he
    · exact (h.sources e he hk).imp_right (List.mem_append_left _)
    · exact (h'.sources e he hk).imp_right (List.mem_append_right _)
  case declared =>
    intro e he hk
    rcases List.mem_append.1 he with he | he
    · refine (h.declared e he hk).imp_right ?_
      rintro ⟨q, hq, hqe⟩
      exact ⟨q, List.mem_append_left _ hq, hqe⟩
    · rcases h'.declared e he hk with hd | ⟨q, hq, hqe⟩
      · -- known in between: known before, or by an edge recorded first
        rcases (h.known _).1 hd with hd | ⟨e', he', hk', hke⟩
        · exact Or.inl (hkey e.target ▸ hd)
        · rw [hkey] at hke
          rcases h.declared e' he' hk' with hd | ⟨q, hq, hqe⟩
          · exact Or.inl (hke ▸ hd)
          · exact Or.inr ⟨q, List.mem_append_left _ hq, hqe.trans hke⟩
      · rw [hkey, hkey] at hqe
        exact Or.inr ⟨q, List.mem_append_right _ hq, hqe⟩
  case waiting =>
    intro q hq
    rcases List.mem_append.1 hq with hq | hq
    · obtain ⟨e, he, hqe⟩ := h.waiting q hq
      exact ⟨e, List.mem_append_left _ he, hqe⟩
    · obtain ⟨e, he, hqe, hfresh⟩ := h'.waiting q hq
      refine ⟨e, List.mem_append_right _ he, hqe, hfresh.imp_right fun hn hd ↦ hn ?_⟩
      exact (h.known _).2 (Or.inl (hkey q ▸ hd))

end Extends

theorem getElem?_edges_addEdge (d : Dependencies) (file target : Path) (kind : EdgeKind)
    (key : String) : (d.addEdge file target kind).edges[key]? =
      if d.key file = key then some (d.edgesOf file ++ [⟨target, kind⟩]) else d.edges[key]? := by
  rw [Dependencies.addEdge, Std.ExtTreeMap.getElem?_insert]
  by_cases h : d.key file = key
  · rw [if_pos h, if_pos (h ▸ Std.ReflCmp.compare_self)]
  · rw [if_neg h, if_neg fun he ↦ h (Std.LawfulEqCmp.eq_of_compare he)]

theorem mem_declarations_mark (d : Dependencies) (p : Path) (key : String) :
    key ∈ (d.mark p).2.declarations ↔ key ∈ d.declarations ∨ d.key p = key := by
  rw [Dependencies.mark, Std.ExtTreeSet.mem_insert, Std.LawfulEqCmp.compare_eq_iff_eq]
  exact or_comm

theorem extends_addEdge (s : Site) (l : Links) (e : Edge) :
    (l.deps.addEdge s.file e.target e.kind).edgesOf s.file = l.deps.edgesOf s.file ++ [e] ∧
      SameElsewhere (l.deps.key s.file) l.deps (l.deps.addEdge s.file e.target e.kind) := by
  refine ⟨?_, ?_, fun _ _ ↦ rfl, fun _ _ ↦ rfl⟩
  · have hkey : (l.deps.addEdge s.file e.target e.kind).key s.file = l.deps.key s.file := rfl
    rw [Dependencies.edgesOf, Dependencies.edgesAt, getElem?_edges_addEdge, hkey, if_pos rfl]
    rfl
  · intro k hk
    rw [getElem?_edges_addEdge, if_neg (Ne.symm hk)]

theorem announce_eq (l : Links) (target : Path) :
    l.announce target = ⟨(l.deps.mark target).2,
      if l.deps.key target ∈ l.deps.declarations then l.queue else l.queue ++ [target]⟩ := by
  rw [Links.announce, Dependencies.mark, Dependencies.isKnown]
  by_cases h : l.deps.key target ∈ l.deps.declarations
  · simp [h]
  · simp [h]

theorem extends_attach (s : Site) (l : Links) (e : Edge) :
    ∃ added, Extends s l (l.attach s e) [e] added := by
  obtain ⟨hedges, helse⟩ := extends_addEdge s l e
  rw [Links.attach]
  by_cases hk : e.kind = .source
  · simp only [hk, if_true] at hedges helse ⊢
    cases hv : s.valid e.target with
    | true =>
      refine ⟨[], rfl, hedges, helse, ?_, (List.append_nil _).symm, ?_, ?_, ?_⟩
      · intro key
        simp [Dependencies.addEdge, hk]
      · simp [hv]
      · simp [hk]
      · simp
    | false =>
      refine ⟨[e.target], rfl, hedges, helse, ?_, rfl, ?_, ?_, ?_⟩
      · intro key
        simp [Dependencies.addEdge, hk]
      · simp
      · simp [hk]
      · simp [hk]
  · simp only [hk, if_false]
    rw [announce_eq]
    have hedges' : ((l.deps.addEdge s.file e.target e.kind).mark e.target).2.edgesOf s.file =
        l.deps.edgesOf s.file ++ [e] := hedges
    have hknown (key : String) :
        key ∈ ((l.deps.addEdge s.file e.target e.kind).mark e.target).2.declarations ↔
          key ∈ l.deps.declarations ∨ ∃ f ∈ [e], f.kind ≠ .source ∧ l.deps.key f.target = key := by
      rw [mem_declarations_mark]
      simp [Dependencies.addEdge, Dependencies.key, hk]
    by_cases hd : l.deps.key e.target ∈ l.deps.declarations
    · refine ⟨[], rfl, hedges', ⟨helse.1, helse.2, helse.3⟩, hknown, ?_, ?_, ?_, ?_⟩
      · rw [List.append_nil]
        exact if_pos hd
      · simp [hk]
      · simp [hd]
      · simp
    · refine ⟨[e.target], rfl, hedges', ⟨helse.1, helse.2, helse.3⟩, hknown, if_neg hd, ?_, ?_, ?_⟩
      · simp
      · simp
      · simp [hd]

namespace Links

variable {s : Site}

theorem fits_attach {l : Links} (h : s.Fits l.deps) (e : Edge) : s.Fits (l.attach s e).deps := by
  rw [attach]
  split
  · cases s.valid e.target <;> exact ⟨h.modules, h.types⟩
  · exact ⟨h.modules, h.types⟩

theorem extends_cited {l : Links} {d : Dependencies} (hm : Recalls s.file l.deps d)
    (hf : s.Fits d) (e? : Option Edge) :
    let l₁ := e?.elim { l with deps := d } (attach s { l with deps := d })
    (∃ added, Extends s l l₁ e?.toList added) ∧ s.Fits l₁.deps := by
  cases e? with
  | none => exact ⟨⟨[], .of_recalls hm⟩, hf⟩
  | some e =>
    obtain ⟨added, ha⟩ := extends_attach s { l with deps := d } e
    exact ⟨⟨added, (Extends.of_recalls hm).trans ha⟩, fits_attach hf e⟩

/-- Recording citations adds the edges of those before the first one that is
refused; when none is, it succeeds. -/
theorem run_citations {cs : List Citation} {l : Links} (h : s.Fits l.deps) :
    let o := (cs.forM (cite s)).run l
    ∃ new added, Extends s l o.state new added ∧ s.Fits o.state.deps ∧
      (∀ e ∈ new, ∃ c ∈ cs, s.edge? c = some e) ∧
      ((o.result = .ok () ∧ new = cs.filterMap s.edge? ∧ ∀ c ∈ cs, ¬s.Refuses c) ∨
        ∃ name reason, o.result = .error (.unresolved s.file name reason) ∧
          ∃ c ∈ cs, s.Refusal c name reason) := by
  induction cs generalizing l with
  | nil =>
    exact ⟨[], [], Extends.refl s l, h, by simp, Or.inl ⟨rfl, rfl, by simp⟩⟩
  | cons c cs ih =>
    have hrun := Action.run_forM_cons (cite s) c cs l
    rw [Action.run_bind] at hrun
    rcases run_cite h c with ⟨name, reason, calls, hr, hc⟩ | ⟨hr, d, calls, hm, hf, hc⟩
    · rw [hc] at hrun
      rw [hrun]
      exact ⟨[], [], Extends.refl s l, h, by simp,
        Or.inr ⟨name, reason, rfl, c, List.mem_cons_self, hr⟩⟩
    · rw [hc] at hrun
      rw [hrun]
      obtain ⟨⟨added, h₁⟩, hf₁⟩ := extends_cited hm hf (s.edge? c)
      obtain ⟨new', added', h₂, hf₂, hfrom, hres⟩ := ih hf₁
      refine ⟨_, _, h₁.trans h₂, hf₂, ?_, ?_⟩
      · intro e he
        rcases List.mem_append.1 he with he | he
        · exact ⟨c, List.mem_cons_self, Option.mem_toList.1 he⟩
        · obtain ⟨c', hc', he'⟩ := hfrom e he
          exact ⟨c', List.mem_cons_of_mem c hc', he'⟩
      · rcases hres with ⟨hok, rfl, hall⟩ | ⟨name, reason, herr, c', hc', hr'⟩
        · refine Or.inl ⟨hok, ?_, List.forall_mem_cons.2 ⟨hr, hall⟩⟩
          rw [List.filterMap_cons]
          cases s.edge? c <;> rfl
        · exact Or.inr ⟨name, reason, herr, c', List.mem_cons_of_mem c hc', hr'⟩

end Links

section Calling

open TypedLoader.Action

variable {Q : Call → Prop} {w : World} {options : Json.Object}
  (hQ : ∀ name file, Q (.resolve name file))

include hQ

theorem calls_resolveModule (file : Path) (name : String) :
    Calls Q (resolveModule w options file name) := by
  intro d c hc
  rw [run, resolveModule] at hc
  split at hc
  · cases hc
  · split at hc <;> obtain rfl := List.mem_singleton.1 hc <;> exact hQ name file

theorem calls_resolveTypes (file : Path) (name : String) :
    Calls Q (resolveTypes w options file name) := by
  intro d c hc
  rw [run, resolveTypes] at hc
  split at hc
  · cases hc
  · split at hc <;> obtain rfl := List.mem_singleton.1 hc <;> exact hQ name file

theorem calls_linkAll (s : Site) (refs : References) : Calls Q (Links.linkAll s refs) := by
  refine .bind (.forM (fun name ↦ ?_) refs.imports) fun _ ↦
    .bind (calls_modify _) fun _ ↦ .forM (fun name ↦ ?_) refs.types
  · refine .bind ((calls_resolveModule hQ s.file name).within _ _) fun found ↦ ?_
    cases found with
    | none => exact calls_pure ()
    | some r => exact calls_modify _
  · refine .bind ((calls_resolveTypes hQ s.file name).within _ _) fun found ↦ ?_
    cases found with
    | none => exact calls_pure ()
    | some r => exact calls_modify _

end Calling

theorem getElem?_erase_of_ne {α : Type} {m : Std.ExtTreeMap String α} {key k : String}
    (h : k ≠ key) : (m.erase key)[k]? = m[k]? := by
  rw [Std.ExtTreeMap.getElem?_erase, if_neg]
  intro he
  exact h (Std.LawfulEqCmp.eq_of_compare he).symm

theorem sameElsewhere_clear (d : Dependencies) (file : Path) :
    SameElsewhere (d.key file) d (d.clear file) :=
  ⟨fun _ hk ↦ getElem?_erase_of_ne hk, fun _ hk ↦ getElem?_erase_of_ne hk,
    fun _ hk ↦ getElem?_erase_of_ne hk⟩

theorem edgesOf_clear (d : Dependencies) (file : Path) : (d.clear file).edgesOf file = [] := by
  have hn : (d.clear file).edges[d.key file]? = none := Std.ExtTreeMap.getElem?_erase_self
  have hk : (d.clear file).key file = d.key file := rfl
  rw [Dependencies.edgesOf, Dependencies.edgesAt, hk, hn]
  rfl

theorem fits_clear (s : Site) (d : Dependencies) : s.Fits (d.clear s.file) := by
  have hk : (d.clear s.file).key s.file = d.key s.file := rfl
  have hm : (d.clear s.file).modules[d.key s.file]? = none := Std.ExtTreeMap.getElem?_erase_self
  have ht : (d.clear s.file).types[d.key s.file]? = none := Std.ExtTreeMap.getElem?_erase_self
  constructor
  · intro name r h
    rw [Dependencies.moduleOf?, Memo.get?, hk, hm] at h
    cases h
  · intro name r h
    rw [Dependencies.typesOf?, Memo.get?, hk, ht] at h
    cases h

/-- The links of a file in place of its old ones: its edges are `new`, as far as
its citations lead to files, and everything under other keys stays. -/
theorem run_linkAll_clear (s : Site) (refs : References) (d : Dependencies) (queue : List Path) :
    let o := (Links.linkAll s refs).run ⟨d.clear s.file, queue⟩
    ∃ new added, Extends s ⟨d.clear s.file, queue⟩ o.state new added ∧
      (∀ e ∈ new, ∃ c ∈ citations refs, s.edge? c = some e) ∧
      ((o.result = .ok () ∧ new = (citations refs).filterMap s.edge? ∧
          ∀ c ∈ citations refs, ¬s.Refuses c) ∨
        ∃ name reason, o.result = .error (.unresolved s.file name reason) ∧
          ∃ c ∈ citations refs, s.Refusal c name reason) := by
  have hf : s.Fits (⟨d.clear s.file, queue⟩ : Links).deps := fits_clear s d
  obtain ⟨new, added, he, -, hfrom, hres⟩ := Links.run_citations hf
  rw [Links.run_linkAll]
  exact ⟨new, added, he, hfrom, hres⟩

end Analysis

end TypedLoader
