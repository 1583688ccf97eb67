import TypedLoader.Proofs.Analysis.Faithful

namespace TypedLoader.Analysis

open Relation (ReflTransGen)

/-- What stays as it is while changes are taken over: the world, the compiler options,
how paths are compared, and which files may come up. -/
structure Scene where
  world : World
  options : Json.Object
  case : PathCase
  up : Path → Prop

namespace Scene

/-- Nothing that the text of a file cites is refused, and what it cites may come up. -/
structure Welcomes (s : Scene) (p : Path) (text : String) : Prop where
  accepted : ∀ c ∈ citations (s.world.compiler.scan text), ¬(lone s.world s.options p).Refuses c
  cites : ∀ q, Cites s.world s.options p text q → s.up q

/-- Files that may come up have one spelling each. Those that can be read are analysed
without an error. -/
structure Sound (s : Scene) : Prop where
  normal : ∀ p, s.up p → p.normalize = p
  key : ∀ p q, s.up p → s.up q → s.case.key p = s.case.key q → p = q
  welcomes : ∀ p text, s.up p → s.world.files.read p = .ok text → s.Welcomes p text
  readable : ∀ p q, s.up p → Refers s.world s.options p q →
    ∃ text, s.world.files.read q = .ok text

end Scene

/-- What has been taken over: the files stored before, up to date; those of which a new
text has come in; and those that may wait for an analysis. -/
structure Ledger where
  base : FileStore
  taken : List Path := []
  due : List Path := []

variable {s : Scene} {wanted : Path → Prop} {l : Ledger}

variable (s) in
/-- A text that leads to nothing new: what it asks for is stored already. -/
structure Calm (base : FileStore) (p : Path) (text : String) : Prop where
  welcomes : s.Welcomes p text
  known : ∀ e ∈ linksOf s.world s.options p text, base.files[s.case.key e.target]? ≠ none

variable (s) in
/-- The files that new texts lead to through files that were not stored. -/
inductive Fetched (l : Ledger) : Path → Prop
  | taken {p : Path} (h : p ∈ l.taken) : Fetched l p
  | refers {p q : Path} (h : Fetched l p) (hr : Refers s.world s.options p q)
      (hn : l.base.files[s.case.key q]? = none) : Fetched l q

variable (s wanted l) in
/-- Files of which a text came in are wanted, and wanted files come up and can be read. -/
structure Wanting : Prop where
  taken : ∀ p ∈ l.taken, wanted p
  up : ∀ p, wanted p → s.up p
  read : ∀ p, wanted p → ∃ text, s.world.files.read p = .ok text

variable (s wanted l) in
/-- What wanted files lead to is wanted, unless it is stored in the base. What waits for
an analysis is wanted, or leads to nothing new. -/
structure Wants : Prop extends Wanting s wanted l where
  closed : ∀ p q, wanted p → Refers s.world s.options p q →
    l.base.files[s.case.key q]? = none → wanted q
  calm : ∀ p ∈ l.due, p ∉ l.taken → ∀ source : SourceFile,
    l.base.files[s.case.key p]? = some source → Calm s l.base p source.text

def Here (s : Scene) (files : FileStore) (queue : List Path) (key : String) : Prop :=
  files.files[key]? ≠ none ∨ ∃ q ∈ queue, s.case.key q = key

variable (s wanted l) in
/-- What is stored beside the base are wanted files, as they are read. -/
structure Stores (files : FileStore) : Prop where
  case : files.case = s.case
  base_case : l.base.case = s.case
  spelled : ∀ (key : String) (source : SourceFile), files.files[key]? = some source →
    s.up source.path ∧ s.case.key source.path = key
  old : ∀ (key : String) (source : SourceFile), l.base.files[key]? = some source → files.files[key]? = some source
  new : ∀ (key : String) (source : SourceFile), files.files[key]? = some source →
    l.base.files[key]? = none →
    wanted source.path ∧ s.world.files.read source.path = .ok source.text ∧ source.version = 0
  taken : ∀ p ∈ l.taken, wanted p ∧
    ∃ source : SourceFile, files.files[s.case.key p]? = some source ∧
      s.world.files.read p = .ok source.text
  versions : files.projectVersion + l.base.files.size = l.base.projectVersion + files.files.size

variable (s wanted l) in
/-- The state of analyses that follow the ledger. A wanted file that has been stored
leads to stored files, or waits for an analysis. -/
structure Tracks (files : FileStore) (deps : Dependencies) (marks : Marks) (queue : List Path) :
    Prop where
  stores : Stores s wanted l files
  deps_case : deps.case = s.case
  valid : ∀ key : String, isValid marks key = true → files.files[key]? ≠ none
  invalid : ∀ p, s.up p → files.files[s.case.key p]? ≠ none →
    isValid marks (s.case.key p) = false → p ∈ l.due
  known : ∀ key ∈ deps.declarations, Here s files queue key
  waiting : ∀ q ∈ queue, s.up q ∧ (files.files[s.case.key q]? ≠ none ∨ wanted q)
  led : ∀ p, wanted p → p ∈ l.taken ∨ l.base.files[s.case.key p]? = none →
    files.files[s.case.key p]? ≠ none →
    (isValid marks (s.case.key p) = false ∧ ((∃ q ∈ queue, s.case.key q = s.case.key p) ∨
      l.base.files[s.case.key p]? ≠ none ∧ p ∈ l.due)) ∨
    ∀ q, Refers s.world s.options p q → Here s files queue (s.case.key q)

section Walking

variable {k k' : Walk} {files files' : FileStore} {file p q : Path} {queue : List Path}
  {text : String} {new : List Edge} {added : List Path}

theorem Stores.key (h : Stores s wanted l files) (p : Path) : files.key p = s.case.key p := by
  rw [FileStore.key, h.case]

theorem Stores.base_key (h : Stores s wanted l files) (p : Path) : l.base.key p = s.case.key p := by
  rw [FileStore.key, h.base_case]

theorem Stores.path_eq (h : Stores s wanted l files) (hs : s.Sound) (hup : s.up p)
    {source : SourceFile} (hf : files.files[s.case.key p]? = some source) : source.path = p :=
  hs.key _ _ (h.spelled _ _ hf).1 hup (h.spelled _ _ hf).2

theorem Stores.of_base (h : Stores s wanted l files) {key : String}
    (hb : l.base.files[key]? ≠ none) : files.files[key]? ≠ none := by
  obtain ⟨source, hsource⟩ := Option.ne_none_iff_exists'.1 hb
  rw [h.old _ _ hsource]
  exact Option.some_ne_none _

theorem Stores.base_eq_none (h : Stores s wanted l files) {key : String}
    (hn : files.files[key]? = none) : l.base.files[key]? = none :=
  not_not.1 fun hb ↦ h.of_base hb hn

theorem Here.stored {key : String} (h : Here s files [] key) : files.files[key]? ≠ none :=
  h.resolve_right fun ⟨_, hm, _⟩ ↦ absurd hm List.not_mem_nil

theorem Here.mono {key : String} (h : Here s files queue key)
    (hfiles : files.files[key]? ≠ none → files'.files[key]? ≠ none) {queue' : List Path}
    (hqueue : ∀ q ∈ queue, files'.files[s.case.key q]? ≠ none ∨ q ∈ queue') :
    Here s files' queue' key := by
  rcases h with h | ⟨q, hq, rfl⟩
  · exact Or.inl (hfiles h)
  · exact (hqueue q hq).imp_right fun hm ↦ ⟨q, hm, rfl⟩

/-- The text of a visited file is that of a wanted file, or leads to nothing new. -/
inductive Comes (s : Scene) (wanted : Path → Prop) (l : Ledger) (file : Path) (text : String) :
    Prop
  | wanted (h : wanted file) (hr : s.world.files.read file = .ok text)
  | calm (ht : file ∉ l.taken) (hb : l.base.files[s.case.key file]? ≠ none)
      (h : Calm s l.base file text)

theorem Walk.Loads.comes (hl : Walk.Loads s.world files file text files')
    (h : Stores s wanted l files) (hs : s.Sound) (hw : Wants s wanted l) (hup : s.up file)
    (hdue : files.files[s.case.key file]? ≠ none → file ∈ l.due)
    (hwanted : files.files[s.case.key file]? ≠ none ∨ wanted file) :
    Comes s wanted l file text := by
  cases hl with
  | @stored source hg =>
    rw [FileStore.get?, h.key] at hg
    have hsome : files.files[s.case.key file]? ≠ none := by rw [hg]; exact Option.some_ne_none _
    by_cases ht : file ∈ l.taken
    · obtain ⟨hwanted, source', hsource, hread⟩ := h.taken file ht
      obtain rfl := Option.some.inj (hg.symm.trans hsource)
      exact .wanted hwanted hread
    · cases hb : l.base.files[s.case.key file]? with
      | some source' =>
        obtain rfl := Option.some.inj (hg.symm.trans (h.old _ _ hb))
        exact .calm ht (by rw [hb]; exact Option.some_ne_none _)
          (hw.calm file (hdue hsome) ht source hb)
      | none =>
        obtain ⟨hwanted, hread, -⟩ := h.new _ _ hg hb
        rw [h.path_eq hs hup hg] at hwanted hread
        exact .wanted hwanted hread
  | read hn hr =>
    rw [FileStore.get?, h.key] at hn
    exact .wanted (hwanted.resolve_left fun hne ↦ hne hn) hr

theorem Comes.welcomes (h : Comes s wanted l file text) (hs : s.Sound) (hup : s.up file) :
    s.Welcomes file text := by
  cases h with
  | wanted _ hr => exact hs.welcomes file text hup hr
  | calm _ _ h => exact h.welcomes

theorem Comes.read (h : Comes s wanted l file text)
    (hfresh : file ∈ l.taken ∨ l.base.files[s.case.key file]? = none) :
    s.world.files.read file = .ok text := by
  cases h with
  | wanted _ hr => exact hr
  | calm htaken hb _ => exact hfresh.elim (absurd · htaken) (absurd · hb)

theorem Comes.target (h : Comes s wanted l file text) (hw : Wants s wanted l) {e : Edge}
    (he : e ∈ linksOf s.world s.options file text) :
    l.base.files[s.case.key e.target]? ≠ none ∨ wanted e.target := by
  cases h with
  | wanted hwanted hr =>
    by_cases hb : l.base.files[s.case.key e.target]? = none
    · exact Or.inr (hw.closed file _ hwanted (refers_of_mem_linksOf hr he) hb)
    · exact Or.inl hb
  | calm _ _ h => exact Or.inl (h.known e he)

theorem Stores.getElem?_add (h : Stores s wanted l files) (hs : s.Sound) (hup : s.up file)
    (text key : String) : (files.add file text).files[key]? =
      if s.case.key file = key then some ⟨file, text, 0⟩ else files.files[key]? := by
  rw [FileStore.add, FileStore.getElem?_put, h.key, hs.normal file hup]

theorem Stores.add (h : Stores s wanted l files) (hs : s.Sound) (hup : s.up file)
    (hn : files.files[s.case.key file]? = none) (hwanted : wanted file)
    (hr : s.world.files.read file = .ok text) : Stores s wanted l (files.add file text) where
  case := h.case
  base_case := h.base_case
  spelled key source hk := by
    rw [h.getElem?_add hs hup] at hk
    split at hk
    · rename_i he
      obtain rfl := Option.some.inj hk
      exact ⟨hup, he⟩
    · exact h.spelled key source hk
  old key source hk := by
    have hold := h.old key source hk
    rw [h.getElem?_add hs hup, if_neg]
    · exact hold
    · rintro rfl
      rw [hn] at hold
      cases hold
  new key source hk hb := by
    rw [h.getElem?_add hs hup] at hk
    split at hk
    · obtain rfl := Option.some.inj hk
      exact ⟨hwanted, hr, rfl⟩
    · exact h.new key source hk hb
  taken p hp := by
    obtain ⟨hwp, source, hsource, hread⟩ := h.taken p hp
    refine ⟨hwp, source, ?_, hread⟩
    rw [h.getElem?_add hs hup, if_neg]
    · exact hsource
    · intro he
      rw [← he, hn] at hsource
      cases hsource
  versions := by
    have hsize : (files.add file text).files.size = files.files.size + 1 := by
      have hc : files.files.contains (files.key file) = false := by
        rw [h.key, Std.ExtTreeMap.contains_eq_isSome_getElem?, hn]
        rfl
      rw [FileStore.add, FileStore.put, Std.ExtTreeMap.size_insert, hc]
      rfl
    have hversion : (files.add file text).projectVersion = files.projectVersion + 1 := rfl
    have hold := h.versions
    omega

theorem Stores.loads (h : Stores s wanted l files) (hs : s.Sound) (hup : s.up file)
    (hwanted : files.files[s.case.key file]? ≠ none ∨ wanted file)
    (hl : Walk.Loads s.world files file text files') : Stores s wanted l files' := by
  cases hl with
  | stored => exact h
  | read hn hr =>
    rw [FileStore.get?, h.key] at hn
    exact h.add hs hup hn (hwanted.resolve_left fun hne ↦ hne hn) hr

theorem Walk.Loads.ne_none (hl : Walk.Loads s.world files file text files') {key : String}
    (hk : files.files[key]? ≠ none) : files'.files[key]? ≠ none := by
  obtain ⟨source, hsource⟩ := Option.ne_none_iff_exists'.1 hk
  rw [hl.getElem? hsource]
  exact Option.some_ne_none _

theorem Walk.Loads.ne_none_iff (hl : Walk.Loads s.world files file text files')
    (h : Stores s wanted l files) (hs : s.Sound) (hup : s.up file) {key : String} :
    files'.files[key]? ≠ none ↔ s.case.key file = key ∨ files.files[key]? ≠ none := by
  cases hl with
  | stored hg =>
    rw [FileStore.get?, h.key] at hg
    refine ⟨Or.inr, ?_⟩
    rintro (rfl | hk)
    · rw [hg]
      exact Option.some_ne_none _
    · exact hk
  | read _ _ =>
    rw [h.getElem?_add hs hup]
    split
    · rename_i he
      exact iff_of_true (Option.some_ne_none _) (Or.inl he)
    · rename_i he
      rw [or_iff_right he]

theorem lone_of_edge? {site : Site} {c : Citation} {e : Edge} (he : site.edge? c = some e) :
    (lone site.world site.options site.file).edge? c = some e ∨ site.stored e.target = true := by
  cases c with
  | module name => exact Or.inl he
  | path reference =>
    rw [Site.edge?] at he ⊢
    split at he
    · rename_i hthere
      obtain rfl := Option.some.inj he
      rcases Bool.or_eq_true_iff.1 hthere with hstored | hfile
      · exact Or.inr hstored
      · exact Or.inl (if_pos hfile)
    · cases he
  | types name => exact Or.inl he

theorem edge?_of_lone {site : Site} {c : Citation} {e : Edge}
    (he : (lone site.world site.options site.file).edge? c = some e) : site.edge? c = some e := by
  cases c with
  | module name => exact he
  | path reference =>
    rw [Site.edge?] at he ⊢
    split at he
    · rename_i hthere
      rw [← he]
      exact if_pos (by rw [Bool.or_eq_true]; exact Or.inr hthere)
    · cases he
  | types name => exact he

theorem exists_edge_of_refers (hread : s.world.files.read file = .ok text)
    (hr : Refers s.world s.options file q) :
    ∃ e ∈ (citations (s.world.compiler.scan text)).filterMap
      (Walk.site s.world s.options k files file).edge?, e.target = q := by
  obtain ⟨e, he, rfl⟩ := (refers_iff hread).1 hr
  obtain ⟨c, hc, hlone⟩ := List.mem_filterMap.1 he
  have hrecorded : (Walk.site s.world s.options k files file).edge? c = some e :=
    edge?_of_lone hlone
  exact ⟨e, List.mem_filterMap.2 ⟨c, hc, hrecorded⟩, rfl⟩

theorem Comes.edge (h : Comes s wanted l file text) (hs : s.Sound) (hw : Wants s wanted l)
    (hst : Stores s wanted l files') (hup : s.up file) {c : Citation} {e : Edge}
    (hc : c ∈ citations (s.world.compiler.scan text))
    (he : (Walk.site s.world s.options k files' file).edge? c = some e) :
    s.up e.target ∧ (files'.files[s.case.key e.target]? ≠ none ∨ wanted e.target) := by
  refine ⟨(h.welcomes hs hup).cites _ (cites_of_edge? ⟨rfl, rfl, rfl⟩ hc he), ?_⟩
  rcases lone_of_edge? he with hlone | hstored
  · exact (h.target hw (List.mem_filterMap.2 ⟨c, hc, hlone⟩)).imp_left hst.of_base
  · have hmem : files'.has e.target = true := hstored
    rw [FileStore.has, hst.key, Std.ExtTreeMap.contains_eq_isSome_getElem?] at hmem
    exact Or.inl (Option.isSome_iff_ne_none.1 hmem)

theorem Tracks.visit (h : Tracks s wanted l k.files k.deps k.marks k.queue) (hs : s.Sound)
    (hw : Wants s wanted l) (hq : k.queue = file :: queue)
    (hv : isValid k.marks (k.files.key file) = false)
    (hvis : Walk.Visits s.world s.options (k.enter file queue) file text k'
      ((citations (s.world.compiler.scan text)).filterMap
        (Walk.site s.world s.options (k.enter file queue) k'.files file).edge?) added) :
    Tracks s wanted l k'.files k'.deps k'.marks k'.queue := by
  obtain ⟨hup, hwanted⟩ := h.waiting file (hq ▸ List.mem_cons_self)
  have ht := hvis.touches
  have hkey := h.stores.key
  rw [hkey] at hv
  have hl : Walk.Loads s.world k.files file text k'.files := hvis.loads
  have hst := h.stores.loads hs hup hwanted hl
  have hcomes := hl.comes h.stores hs hw hup (fun hf ↦ h.invalid file hup hf hv) hwanted
  have hcase : k.deps.case = k.files.case := h.deps_case.trans h.stores.case.symm
  have hvalid (key : String) := ht.isValid_iff key
  simp only [hkey] at hvalid
  have hfile : k'.files.files[s.case.key file]? ≠ none :=
    (hl.ne_none_iff h.stores hs hup).2 (Or.inl rfl)
  have hqueue : ∀ q ∈ k.queue, k'.files.files[s.case.key q]? ≠ none ∨ q ∈ k'.queue := by
    intro q hm
    rw [hq] at hm
    rcases List.mem_cons.1 hm with rfl | hm
    · exact Or.inl hfile
    · rw [ht.queue_eq]
      exact Or.inr (List.mem_append_left added hm)
  have hmono {key : String} (hk : Here s k.files k.queue key) : Here s k'.files k'.queue key :=
    hk.mono hl.ne_none hqueue
  have hallvalid : ∀ key : String, isValid k'.marks key = true → k'.files.files[key]? ≠ none := by
    intro key hk
    rcases (hvalid key).1 hk with rfl | hk
    · exact hfile
    · exact hl.ne_none (h.valid key hk)
  have hsettled {key : String} (hk : k'.Settled key) : Here s k'.files k'.queue key := by
    rcases hk with hk | ⟨q, hm, hk⟩
    · exact Or.inl (hallvalid key hk)
    · exact Or.inr ⟨q, hm, (hst.key q).symm.trans hk⟩
  constructor
  case stores => exact hst
  case deps_case => exact ht.deps_case.trans h.deps_case
  case valid => exact hallvalid
  case invalid =>
    intro p hp hf hnot
    have hn := not_or.1 ((hvalid _).not.1 (ne_true_of_eq_false hnot))
    exact h.invalid p hp (((hl.ne_none_iff h.stores hs hup).1 hf).resolve_left hn.1)
      (eq_false_of_ne_true hn.2)
  case known =>
    intro key hk
    rcases ht.known hcase hk with hd | hd
    · exact hmono (h.known key hd)
    · exact hsettled hd
  case waiting =>
    refine ht.forall_queue (fun q hm ↦ ?_) fun e he ↦ ?_
    · obtain ⟨hq', hwq⟩ := h.waiting q (hq ▸ List.mem_cons_of_mem file hm)
      exact ⟨hq', hwq.imp_left hl.ne_none⟩
    · obtain ⟨c, hc, hce⟩ := List.mem_filterMap.1 he
      exact hcomes.edge hs hw hst hup hc hce
  case led =>
    intro p hp hfresh hf
    by_cases hpf : s.case.key file = s.case.key p
    -- the visited file itself, whose text is the one that is read
    · obtain rfl := hs.key _ _ hup (hw.up p hp) hpf
      refine Or.inr fun q hr ↦ ?_
      obtain ⟨e, he, rfl⟩ := exists_edge_of_refers (hcomes.read hfresh) hr
      rcases hvis.settled hcase he with hset | ⟨-, hd⟩
      · rw [hkey] at hset
        exact hsettled hset
      · rw [hkey] at hd
        exact hmono (h.known _ hd)
    · have hfold := ((hl.ne_none_iff h.stores hs hup).1 hf).resolve_left hpf
      rcases h.led p hp hfresh hfold with ⟨hnot, hwait⟩ | hled
      · refine Or.inl ⟨?_, ?_⟩
        · exact eq_false_of_ne_true ((hvalid _).not.2 (not_or.2 ⟨hpf, ne_true_of_eq_false hnot⟩))
        · refine hwait.imp_left ?_
          rintro ⟨q, hm, hk⟩
          rw [hq] at hm
          rcases List.mem_cons.1 hm with rfl | hm
          · exact absurd hk hpf
          · rw [ht.queue_eq]
            exact ⟨q, List.mem_append_left added hm, hk⟩
      · exact Or.inr fun q hr ↦ hmono (hled q hr)

theorem Tracks.skip (h : Tracks s wanted l k.files k.deps k.marks k.queue)
    (hq : k.queue = file :: queue) (hv : isValid k.marks (k.files.key file) = true) :
    Tracks s wanted l k.files k.deps k.marks queue := by
  rw [h.stores.key] at hv
  have hmono {key : String} (hk : Here s k.files k.queue key) : Here s k.files queue key := by
    refine hk.mono id fun q hm ↦ ?_
    rw [hq] at hm
    rcases List.mem_cons.1 hm with rfl | hm
    · exact Or.inl (h.valid _ hv)
    · exact Or.inr hm
  refine { h with known := fun key hk ↦ hmono (h.known key hk), waiting := ?_, led := ?_ }
  · exact fun q hm ↦ h.waiting q (hq ▸ List.mem_cons_of_mem file hm)
  · intro p hp hfresh hf
    rcases h.led p hp hfresh hf with ⟨hnot, hwait⟩ | hled
    · refine Or.inl ⟨hnot, hwait.imp_left ?_⟩
      rintro ⟨q, hm, hk⟩
      rw [hq] at hm
      rcases List.mem_cons.1 hm with rfl | hm
      · rw [← hk, hv] at hnot
        cases hnot
      · exact ⟨q, hm, hk⟩
    · exact Or.inr fun q hr ↦ hmono (hled q hr)

theorem Tracks.steps (hs : s.Sound) (hw : Wants s wanted l)
    (hsteps : ReflTransGen (Walk.Step s.world s.options) k k')
    (h : Tracks s wanted l k.files k.deps k.marks k.queue) :
    Tracks s wanted l k'.files k'.deps k'.marks k'.queue := by
  induction hsteps with
  | refl => exact h
  | tail _ hstep ih =>
    cases hstep with
    | skip hq hv => exact ih.skip hq hv
    | visit hq hv _ hvis => exact ih.visit hs hw hq hv hvis

theorem Tracks.no_error (h : Tracks s wanted l k.files k.deps k.marks k.queue) (hs : s.Sound)
    (hw : Wants s wanted l) (hq : k.queue = file :: queue)
    (hv : isValid k.marks (k.files.key file) = false) {e : CompileError} {calls : List Call} :
    Walk.visit s.world s.options (k.enter file queue) file ≠ ⟨.error e, k', calls⟩ := by
  intro hvisit
  obtain ⟨hup, hwanted⟩ := h.waiting file (hq ▸ List.mem_cons_self)
  rw [h.stores.key] at hv
  rcases Walk.visit_cases s.world s.options (k.enter file queue) file with
    ⟨cause, _, hg, hread, -⟩ |
    ⟨text, k₁, _, new, added, hvis, ⟨hok, -⟩ | ⟨_, _, -, c, hc, hrefusal⟩⟩
  · have hg : k.files.get? file = none := hg
    rw [FileStore.get?, h.stores.key] at hg
    obtain ⟨text, htext⟩ := hw.read file (hwanted.resolve_left fun hne ↦ hne hg)
    rw [htext] at hread
    cases hread
  · rw [hvisit] at hok
    cases hok
  · have hl : Walk.Loads s.world k.files file text k₁.files := hvis.loads
    have hcomes := hl.comes h.stores hs hw hup (fun hf ↦ h.invalid file hup hf hv) hwanted
    have hnames : (Walk.site s.world s.options (k.enter file queue) k₁.files
      file).world.compiler.NamesAs s.world.compiler := ⟨rfl, rfl, rfl⟩
    exact (hcomes.welcomes hs hup).accepted c hc ((refuses_iff hnames c).1 hrefusal.refuses)

/-- A walk that follows the ledger ends well. -/
theorem Tracks.run (h : Tracks s wanted l k.files k.deps k.marks k.queue) (hs : s.Sound)
    (hw : Wants s wanted l) :
    let o := Walk.run s.world s.options k
    o.result = .ok () ∧ o.state.queue = [] ∧
      ReflTransGen (Walk.Step s.world s.options) k o.state ∧
      Tracks s wanted l o.state.files o.state.deps o.state.marks [] := by
  intro o
  obtain ⟨k₁, hsteps, ⟨hok, hstate, hqueue⟩ | ⟨file, queue, e, k₂, calls, hq, hv, hvisit, -⟩⟩ :=
    Walk.run_cases s.world s.options k
  · have hend := Tracks.steps hs hw hsteps h
    rw [hqueue] at hend
    have hstate : o.state = k₁ := hstate
    rw [hstate]
    exact ⟨hok, hqueue, hsteps, hend⟩
  · exact absurd hvisit ((Tracks.steps hs hw hsteps h).no_error hs hw hq hv)

end Walking

end TypedLoader.Analysis
