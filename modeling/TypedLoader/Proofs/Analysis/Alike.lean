import TypedLoader.Proofs.Analysis.Links

namespace TypedLoader.Analysis

structure Alike (file : Path) (d d' : Dependencies) : Prop where
  case : d'.case = d.case
  edges : d'.edges[d.key file]? = d.edges[d.key file]?
  modules : d'.modules[d.key file]? = d.modules[d.key file]?
  types : d'.types[d.key file]? = d.types[d.key file]?

section

variable {s s' : Site} {l l' : Links} {d d' : Dependencies} {file : Path}

theorem Alike.key (h : Alike file d d') : d'.key file = d.key file :=
  key_eq_key_of_case h.case file

theorem Alike.edgesOf (h : Alike file d d') : d'.edgesOf file = d.edgesOf file := by
  rw [Dependencies.edgesOf, Dependencies.edgesAt, h.key, h.edges]
  rfl

theorem Alike.moduleOf? (h : Alike file d d') (name : String) :
    d'.moduleOf? file name = d.moduleOf? file name := by
  rw [Dependencies.moduleOf?, Memo.get?, h.key, h.modules]
  rfl

theorem Alike.typesOf? (h : Alike file d d') (name : String) :
    d'.typesOf? file name = d.typesOf? file name := by
  rw [Dependencies.typesOf?, Memo.get?, h.key, h.types]
  rfl

theorem Alike.addEdge (h : Alike file d d') (target : Path) (kind : EdgeKind) :
    Alike file (d.addEdge file target kind) (d'.addEdge file target kind) := by
  refine ⟨h.case, ?_, h.modules, h.types⟩
  have hk : (d.addEdge file target kind).key file = d.key file := rfl
  rw [getElem?_edges_addEdge, getElem?_edges_addEdge, hk, h.key, h.edgesOf]
  simp

theorem Alike.elsewhere {d'' : Dependencies} (h : Alike file d d') {key : String}
    (hs : SameElsewhere key d' d'') (hc : d''.case = d'.case) (hne : d.key file ≠ key) :
    Alike file d d'' :=
  ⟨hc.trans h.case, (hs.edges _ hne).trans h.edges, (hs.modules _ hne).trans h.modules,
    (hs.types _ hne).trans h.types⟩

theorem alike_clear (d : Dependencies) (file : Path) :
    Alike file { case := d.case } (d.clear file) := by
  have hk : ({ case := d.case } : Dependencies).key file = d.key file := rfl
  refine ⟨rfl, ?_, ?_, ?_⟩
  all_goals
    rw [hk]
    exact Std.ExtTreeMap.getElem?_erase_self.trans Std.ExtTreeMap.getElem?_empty.symm

theorem getElem?_add_self {α : Type} (m : Memo α) (key name : String) (value : α) :
    (m.add key name value)[key]? = some ((m[key]?.getD ∅).insert name value) := by
  rw [Memo.add, Std.ExtTreeMap.getElem?_insert_self]

theorem Alike.addModule (h : Alike file d d') (name : String) (r : ResolvedModule) :
    Alike file (d.addModule file name r) (d'.addModule file name r) := by
  refine ⟨h.case, h.edges, ?_, h.types⟩
  have hm : d'.modules[d.key file]? = d.modules[d.key file]? := h.modules
  have hk : (d.addModule file name r).key file = d.key file := rfl
  rw [hk, Dependencies.addModule, Dependencies.addModule, h.key, getElem?_add_self,
    getElem?_add_self, hm]

theorem Alike.addTypes (h : Alike file d d') (name : String) (r : ResolvedTypes) :
    Alike file (d.addTypes file name r) (d'.addTypes file name r) := by
  refine ⟨h.case, h.edges, h.modules, ?_⟩
  have hm : d'.types[d.key file]? = d.types[d.key file]? := h.types
  have hk : (d.addTypes file name r).key file = d.key file := rfl
  rw [hk, Dependencies.addTypes, Dependencies.addTypes, h.key, getElem?_add_self,
    getElem?_add_self, hm]

theorem Alike.resolveModule (h : Alike file d d') (w : World) (options : Json.Object)
    (name : String) :
    ((resolveModule w options file name).run d').result =
        ((resolveModule w options file name).run d).result ∧
      Alike file ((resolveModule w options file name).run d).state
        ((resolveModule w options file name).run d').state := by
  rw [Action.run, Action.run, Analysis.resolveModule, Analysis.resolveModule, h.moduleOf?]
  cases d.moduleOf? file name with
  | some r => exact ⟨rfl, h⟩
  | none =>
    cases w.compiler.resolveModule name file options with
    | error reason => exact ⟨rfl, h⟩
    | ok found =>
      cases found with
      | none => exact ⟨rfl, h⟩
      | some r => exact ⟨rfl, h.addModule name r⟩

theorem Alike.resolveTypes (h : Alike file d d') (w : World) (options : Json.Object)
    (name : String) :
    ((resolveTypes w options file name).run d').result =
        ((resolveTypes w options file name).run d).result ∧
      Alike file ((resolveTypes w options file name).run d).state
        ((resolveTypes w options file name).run d').state := by
  rw [Action.run, Action.run, Analysis.resolveTypes, Analysis.resolveTypes, h.typesOf?]
  cases d.typesOf? file name with
  | some r => exact ⟨rfl, h⟩
  | none =>
    cases w.compiler.resolveTypes name file options with
    | error reason => exact ⟨rfl, h⟩
    | ok found =>
      cases found with
      | none => exact ⟨rfl, h⟩
      | some r => exact ⟨rfl, h.addTypes name r⟩

theorem Alike.attach (hf : s'.file = s.file) (h : Alike s.file l.deps l'.deps) (e : Edge) :
    Alike s.file (Links.attach s l e).deps (Links.attach s' l' e).deps := by
  have ha := h.addEdge e.target e.kind
  have hm : Alike s.file ((l.deps.addEdge s.file e.target e.kind).mark e.target).2
      ((l'.deps.addEdge s.file e.target e.kind).mark e.target).2 :=
    ⟨ha.case, ha.edges, ha.modules, ha.types⟩
  rw [Links.attach, Links.attach, hf]
  by_cases hk : e.kind = .source
  · simp only [hk, if_true] at ha ⊢
    cases s.valid e.target <;> cases s'.valid e.target <;> exact ha
  · simp only [hk, if_false, announce_eq]
    exact hm

structure Sees (s s' : Site) : Prop where
  file : s'.file = s.file
  world : s'.world = s.world
  options : s'.options = s.options

theorem Sees.refuses_iff (h : Sees s s') (c : Citation) : s'.Refuses c ↔ s.Refuses c := by
  cases c <;> simp only [Site.Refuses, h.file, h.world, h.options]

theorem Sees.edge? (h : Sees s s') {c : Citation}
    (hc : ∀ reference, c = .path reference →
      s.world.files.isFile (referenced s.file reference) = false →
      s'.stored (referenced s.file reference) = s.stored (referenced s.file reference)) :
    s'.edge? c = s.edge? c := by
  cases c with
  | module name => rw [Site.edge?, Site.edge?, h.file, h.world, h.options]
  | path reference =>
    simp only [Site.edge?, h.file, h.world]
    cases hf : s.world.files.isFile (referenced s.file reference) with
    | false => rw [hc reference rfl hf]
    | true => simp only [Bool.or_true, if_true]
  | types name => rw [Site.edge?, Site.edge?, h.file, h.world, h.options]

theorem Alike.cite (hs : Sees s s') {c : Citation} (hc : s'.edge? c = s.edge? c)
    (h : Alike s.file l.deps l'.deps) :
    ((Links.cite s' c).run l').result = ((Links.cite s c).run l).result ∧
      Alike s.file ((Links.cite s c).run l).state.deps ((Links.cite s' c).run l').state.deps := by
  cases c with
  | module name =>
    obtain ⟨hr, ha⟩ := h.resolveModule s.world s.options name
    rw [Links.cite, Links.cite, Links.linkImport, Links.linkImport, Action.run_bind,
      Action.run_bind, Links.run_onDeps, Links.run_onDeps, hs.file, hs.world, hs.options, hr]
    cases ((Analysis.resolveModule s.world s.options s.file name).run l.deps).result with
    | error e => exact ⟨rfl, ha⟩
    | ok found =>
      cases found with
      | none => exact ⟨rfl, ha⟩
      | some r =>
        simp only [Action.run_modify, Links.link_eq, Outcome.after, true_and]
        exact Alike.attach hs.file ha _
  | path reference =>
    rw [Links.cite, Links.cite, Action.run_modify, Action.run_modify,
      Links.linkPath_eq, Links.linkPath_eq, hc]
    refine ⟨rfl, ?_⟩
    cases s.edge? (.path reference) with
    | none => exact h
    | some e => exact Alike.attach hs.file h e
  | types name =>
    obtain ⟨hr, ha⟩ := h.resolveTypes s.world s.options name
    rw [Links.cite, Links.cite, Links.linkTypes, Links.linkTypes, Action.run_bind,
      Action.run_bind, Links.run_onDeps, Links.run_onDeps, hs.file, hs.world, hs.options, hr]
    cases ((Analysis.resolveTypes s.world s.options s.file name).run l.deps).result with
    | error e => exact ⟨rfl, ha⟩
    | ok found =>
      cases found with
      | none => exact ⟨rfl, ha⟩
      | some r =>
        exact ⟨rfl, Alike.attach rfl ha ⟨r.file.normalize, .typeReference⟩⟩

theorem Alike.citations (hs : Sees s s') {cs : List Citation}
    (hc : ∀ c ∈ cs, s'.edge? c = s.edge? c) (h : Alike s.file l.deps l'.deps) :
    ((cs.forM (Links.cite s')).run l').result = ((cs.forM (Links.cite s)).run l).result ∧
      Alike s.file ((cs.forM (Links.cite s)).run l).state.deps
        ((cs.forM (Links.cite s')).run l').state.deps := by
  induction cs generalizing l l' with
  | nil =>
    rw [Action.run_forM_nil, Action.run_forM_nil]
    exact ⟨rfl, h⟩
  | cons c cs ih =>
    obtain ⟨hr, ha⟩ := h.cite hs (hc c List.mem_cons_self)
    rw [Action.run_forM_cons, Action.run_forM_cons, Action.run_bind, Action.run_bind]
    rcases hrun : (Links.cite s c).run l with ⟨r, t, calls⟩
    rcases hrun' : (Links.cite s' c).run l' with ⟨r', t', calls'⟩
    rw [hrun, hrun'] at hr ha
    obtain rfl : r' = r := hr
    cases r' with
    | error e => exact ⟨rfl, ha⟩
    | ok u => exact ih (fun c' hm ↦ hc c' (List.mem_cons_of_mem c hm)) ha

end

end TypedLoader.Analysis
