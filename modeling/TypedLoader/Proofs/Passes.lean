import TypedLoader.Proofs.Watched

namespace TypedLoader

open Analysis (Scene Ledger Tracks Stores Wants Wanting Calm Fetched Refers linksOf)

namespace Analysis

section

variable (s : Scene)

/-- A text that leads to nothing new: it asks for files that are known and stay. -/
structure Scene.Quiet (known : FileStore) (changed : List Path) (p : Path) (text : String) :
    Prop where
  calm : Calm s known p text
  stays : ∀ e ∈ linksOf s.world s.options p text, ∀ q ∈ changed,
    s.case.key q = s.case.key e.target → ∃ text, s.world.files.read q = .ok text

/-- The pass loads modules with the texts that they have on the disk. Among them are the
changed files: each known file that has changed has a new text and is loaded again, unless
its text leads to nothing new. The same goes for files that have changed before and have
not been loaded since. -/
structure Scene.Reloads (known : FileStore) (stale changed : List Path)
    (loads : List (Path × String)) : Prop where
  sound : s.Sound
  names : ∀ p ∈ changed, s.Names p
  loaded : ∀ m ∈ loads, s.up m.1 ∧ s.world.files.read m.1 = .ok m.2
  stale : ∀ p ∈ stale, ∀ source : SourceFile, known.files[s.case.key p]? = some source →
    s.Quiet known changed p source.text
  changed : ∀ p ∈ changed, ∀ (source : SourceFile) (text : String),
    known.files[s.case.key p]? = some source → s.world.files.read p = .ok text →
      source.text ≠ text ∧ p ∈ loads.map Prod.fst ∨ s.Quiet known changed p text

end

def staleAfter (stale changed : List Path) (loads : List (Path × String)) : List Path :=
  (stale ++ changed).filter (· ∉ loads.map Prod.fst)

variable {s : Scene} {wanted : Path → Prop} {l last : Ledger} {known : FileStore}
  {stale changed : List Path} {loads : List (Path × String)} {p : Path} {text : String}

variable (s known stale changed loads l) in
structure Passing : Prop where
  spelled : ∀ (key : String) (source : SourceFile), known.files[key]? = some source →
    s.up source.path ∧ s.case.key source.path = key
  case : l.base.case = s.case
  kept : l.base.Kept
  within : ∀ key : String, l.base.files[key]? ≠ none → known.files[key]? ≠ none
  stays : ∀ key : String, known.files[key]? ≠ none →
    (∀ q ∈ changed, s.case.key q = key → ∃ text, s.world.files.read q = .ok text) →
    l.base.files[key]? ≠ none
  same : ∀ p, s.up p → p ∉ l.taken → ∀ source : SourceFile,
    l.base.files[s.case.key p]? = some source → known.files[s.case.key p]? = some source
  taken : ∀ p ∈ l.taken, s.up p ∧ ∃ text, s.world.files.read p = .ok text ∧
    (p ∈ loads.map Prod.fst ∨ p ∈ changed ∧
      ∃ source : SourceFile, known.files[s.case.key p]? = some source ∧ source.text ≠ text)
  names : ∀ p ∈ l.due, s.Names p
  due : ∀ p ∈ l.due, p ∉ l.taken → ∀ source : SourceFile,
    l.base.files[s.case.key p]? = some source →
      p ∈ stale ∨ p ∈ changed ∧ s.world.files.read p = .ok source.text

variable (l last) in
structure Ledger.Leads : Prop where
  base : ∀ key : String, l.base.files[key]? = none → last.base.files[key]? = none
  taken : ∀ p ∈ l.taken, p ∈ last.taken

theorem Ledger.Leads.refl (l : Ledger) : l.Leads l := ⟨fun _ h ↦ h, fun _ h ↦ h⟩

theorem Ledger.Leads.trans {l₁ l₂ l₃ : Ledger} (h : l₁.Leads l₂) (h' : l₂.Leads l₃) : l₁.Leads l₃ :=
  ⟨fun key hk ↦ h'.base key (h.base key hk), fun p hp ↦ h'.taken p (h.taken p hp)⟩

theorem Passing.base_key (h : Passing s l known stale changed loads) (p : Path) :
    l.base.key p = s.case.key p := by
  rw [FileStore.key, h.case]

theorem Passing.renew (h : Passing s l known stale changed loads) (hs : s.Sound) (hup : s.up p)
    (hr : s.world.files.read p = .ok text) {source : SourceFile}
    (hb : l.base.get? p = some source)
    (hnew : p ∈ loads.map Prod.fst ∨ p ∈ changed ∧ source.text ≠ text) :
    Passing s (l.renew p text) known stale changed loads ∧ l.Leads (l.renew p text) := by
  obtain ⟨version, hget⟩ := l.base.getElem?_update h.kept p text true
  simp only [h.base_key] at hget
  rw [FileStore.get?, h.base_key] at hb
  have hiff (key : String) : (l.renew p text).base.files[key]? ≠ none ↔
      l.base.files[key]? ≠ none := by
    have hrenew : (l.renew p text).base = (l.base.update p text true).2 := rfl
    rw [hrenew, hget]
    split
    · rename_i he
      rw [← he, hb]
      exact iff_of_true (Option.some_ne_none _) (Option.some_ne_none _)
    · rfl
  refine ⟨?_, fun key hk ↦ not_not.1 fun hne ↦ (hiff key).1 hne hk,
    fun q hq ↦ List.mem_cons_of_mem p hq⟩
  constructor
  case spelled => exact h.spelled
  case case => exact (l.base.case_update p text true).trans h.case
  case kept => exact h.kept.update p text true
  case within => exact fun key hk ↦ h.within key ((hiff key).1 hk)
  case stays => exact fun key hk hall ↦ (hiff key).2 (h.stays key hk hall)
  case same =>
    intro q hq hn source' hsource
    have hne : s.case.key p ≠ s.case.key q := by
      intro hk
      exact hn (hs.key p q hup hq hk ▸ List.mem_cons_self)
    have hsource : (l.base.update p text true).2.files[s.case.key q]? = some source' := hsource
    rw [hget, if_neg hne] at hsource
    exact h.same q hq (fun hm ↦ hn (List.mem_cons_of_mem p hm)) source' hsource
  case taken =>
    intro q hq
    by_cases hm : q ∈ l.taken
    · exact h.taken q hm
    · obtain rfl := (List.mem_cons.1 hq).resolve_right hm
      refine ⟨hup, text, hr, hnew.imp_right fun hnew ↦ ?_⟩
      exact ⟨hnew.1, source, h.same q hup hm _ hb, hnew.2⟩
  case names =>
    intro q hq
    rcases List.mem_cons.1 hq with rfl | hq
    · exact Or.inl hup
    · exact h.names q hq
  case due =>
    intro q hq hn source' hsource
    have hqp : q ≠ p := fun hqp ↦ hn (hqp ▸ List.mem_cons_self)
    have hdue : q ∈ l.due := (List.mem_cons.1 hq).resolve_left hqp
    have hn' : q ∉ l.taken := fun hm ↦ hn (List.mem_cons_of_mem p hm)
    have hsource : (l.base.update p text true).2.files[s.case.key q]? = some source' := hsource
    rw [hget] at hsource
    split at hsource
    · rename_i hk
      exact absurd ((h.names q hdue).eq hs hup hk.symm).symm hqp
    · exact h.due q hdue hn' source' hsource

theorem Passing.owe (h : Passing s l known stale changed loads) (hp : s.Names p)
    (hdue : ∀ source : SourceFile, l.base.files[s.case.key p]? = some source →
      p ∈ stale ∨ p ∈ changed ∧ s.world.files.read p = .ok source.text) :
    Passing s (l.owe p) known stale changed loads where
  spelled := h.spelled
  case := h.case
  kept := h.kept
  within := h.within
  stays := h.stays
  same := h.same
  taken := h.taken
  names q hq := by
    rcases List.mem_cons.1 hq with rfl | hq
    · exact hp
    · exact h.names q hq
  due q hq hn source hsource := by
    rcases List.mem_cons.1 hq with rfl | hq
    · exact hdue source hsource
    · exact h.due q hq hn source hsource

theorem Passing.remove (h : Passing s l known stale changed loads) (hp : p ∈ changed)
    (hn : ∀ text, s.world.files.read p ≠ .ok text) :
    Passing s { l with base := (l.base.remove p).2 } known stale changed loads ∧
      l.Leads { l with base := (l.base.remove p).2 } := by
  have hget (key : String) := l.base.getElem?_remove p key
  simp only [h.base_key] at hget
  have hsome {key : String} {source : SourceFile}
      (hk : (l.base.remove p).2.files[key]? = some source) : l.base.files[key]? = some source := by
    rw [hget] at hk
    split at hk
    · cases hk
    · exact hk
  refine ⟨⟨h.spelled, (l.base.case_remove p).trans h.case, h.kept.remove p, ?_, ?_, ?_, h.taken, h.names, ?_⟩,
    ?_, fun q hq ↦ hq⟩
  · intro key hk
    obtain ⟨source, hsource⟩ := Option.ne_none_iff_exists'.1 hk
    refine h.within key ?_
    rw [hsome hsource]
    exact Option.some_ne_none _
  · intro key hk hall
    dsimp only
    rw [hget, if_neg]
    · exact h.stays key hk hall
    · intro he
      obtain ⟨text, hr⟩ := hall p hp he
      exact hn text hr
  · exact fun q hq hm source hsource ↦ h.same q hq hm source (hsome hsource)
  · exact fun q hq hm source hsource ↦ h.due q hq hm source (hsome hsource)
  · intro key hk
    dsimp only
    rw [hget]
    split
    · rfl
    · exact hk

theorem Passing.watch (h : Passing s l known stale changed loads) (hs : s.Sound)
    (hp : p ∈ changed) (hnames : s.Names p) :
    Passing s (l.watch s.world p) known stale changed loads ∧ l.Leads (l.watch s.world p) := by
  have howe (hdue : ∀ source : SourceFile, l.base.files[s.case.key p]? = some source →
      p ∈ stale ∨ p ∈ changed ∧ s.world.files.read p = .ok source.text) :
      Passing s (l.owe p) known stale changed loads ∧ l.Leads (l.owe p) :=
    ⟨h.owe hnames hdue, fun _ hk ↦ hk, fun _ hq ↦ hq⟩
  rw [Ledger.watch]
  cases hr : s.world.files.read p with
  | error cause =>
    have hn : ∀ text, s.world.files.read p ≠ .ok text := by
      intro text hread
      rw [hr] at hread
      cases hread
    obtain ⟨hremoved, hleads⟩ := h.remove hp hn
    refine ⟨hremoved.owe hnames fun source hsource ↦ ?_, hleads.base, hleads.taken⟩
    have hsource : (l.base.remove p).2.files[s.case.key p]? = some source := hsource
    rw [l.base.getElem?_remove, h.base_key, if_pos rfl] at hsource
    cases hsource
  | ok text =>
    dsimp only
    cases hb : l.base.get? p with
    | none =>
      refine howe fun source hsource ↦ ?_
      rw [FileStore.get?, h.base_key, hsource] at hb
      cases hb
    | some source =>
      have hb' := hb
      rw [FileStore.get?, h.base_key] at hb'
      dsimp only
      split
      · rename_i he
        refine howe fun source' hsource ↦ Or.inr ⟨hp, ?_⟩
        obtain rfl := Option.some.inj (hb'.symm.trans hsource)
        exact he ▸ hr
      · rename_i he
        have hknown := h.within (s.case.key p) (by rw [hb']; exact Option.some_ne_none _)
        obtain ⟨source', hsource'⟩ := Option.ne_none_iff_exists'.1 hknown
        obtain ⟨hup, hkey⟩ := h.spelled _ _ hsource'
        have hup : s.up p := hnames.eq hs hup hkey.symm ▸ hup
        exact h.renew hs hup hr hb (Or.inr ⟨hp, he⟩)

theorem Passing.receive (h : Passing s l known stale changed loads) (hs : s.Sound)
    (hup : s.up p) (hr : s.world.files.read p = .ok text) (hp : p ∈ loads.map Prod.fst) :
    Passing s (l.receive p text) known stale changed loads ∧ l.Leads (l.receive p text) := by
  rw [Ledger.receive]
  cases hb : l.base.get? p with
  | none =>
    rw [FileStore.get?, h.base_key] at hb
    refine ⟨⟨h.spelled, h.case, h.kept, h.within, h.stays,
      fun q hq hn ↦ h.same q hq fun hm ↦ hn (List.mem_cons_of_mem p hm), ?_, ?_, ?_⟩,
      fun _ hk ↦ hk, fun q hq ↦ List.mem_cons_of_mem p hq⟩
    · intro q hq
      rcases List.mem_cons.1 hq with rfl | hq
      · exact ⟨hup, text, hr, Or.inl hp⟩
      · exact h.taken q hq
    · intro q hq
      rcases List.mem_cons.1 hq with rfl | hq
      · exact Or.inl hup
      · exact h.names q hq
    · intro q hq hn
      have hqp : q ≠ p := fun hqp ↦ hn (hqp ▸ List.mem_cons_self)
      exact h.due q ((List.mem_cons.1 hq).resolve_left hqp)
        fun hm ↦ hn (List.mem_cons_of_mem p hm)
  | some source =>
    dsimp only
    split
    · exact ⟨h, .refl l⟩
    · exact h.renew hs hup hr hb (Or.inl hp)

theorem Passing.settle (h : Passing s l known stale changed loads) (p : Path) :
    Passing s (l.settle p) known stale changed loads where
  spelled := h.spelled
  case := h.case
  kept := h.kept
  within := h.within
  stays := h.stays
  same := h.same
  taken := h.taken
  names q hq := h.names q (List.mem_filter.1 hq).1
  due q hq := h.due q (List.mem_filter.1 hq).1

/-- The ledger once changed files have been taken over and modules have been loaded. -/
def Ledger.pass (w : World) (known : FileStore) (stale changed : List Path)
    (loads : List (Path × String)) : Ledger :=
  loads.foldl Ledger.load (changed.foldl (Ledger.watch w) ⟨known, [], stale⟩)

theorem passing_start (hspelled : ∀ (key : String) (source : SourceFile),
      known.files[key]? = some source → s.up source.path ∧ s.case.key source.path = key)
    (hcase : known.case = s.case) (hkept : known.Kept)
    (hstale : ∀ p ∈ stale, s.Names p) :
    Passing s ⟨known, [], stale⟩ known stale changed loads where
  spelled := hspelled
  case := hcase
  kept := hkept
  within _ hk := hk
  stays _ hk _ := hk
  same _ _ _ _ hsource := hsource
  taken _ hp := absurd hp List.not_mem_nil
  names := hstale
  due _ hp _ _ _ := Or.inl hp

theorem Passing.up (h : Passing s l known stale changed loads) (hs : s.Sound)
    (hp : Fetched s l p) : s.up p := by
  induction hp with
  | taken hp => exact (h.taken _ hp).1
  | refers _ hrefers _ ih => exact hs.up_of_refers ih hrefers

section Running

variable (hr : s.Reloads known stale changed loads)

include hr

/-- What new texts lead to until the end of the pass is enough all the way through it. -/
theorem Passing.wants (h : Passing s l known stale changed loads)
    (hlast : Passing s last known stale changed loads) (hleads : l.Leads last) :
    Wants s (Fetched s last) l := by
  have hup {p : Path} (hp : Fetched s last p) : s.up p := hlast.up hr.sound hp
  constructor
  case toWanting =>
    refine ⟨fun p hp ↦ .taken (hleads.taken p hp), fun p hp ↦ hup hp, fun p hp ↦ ?_⟩
    cases hp with
    | taken hp =>
      obtain ⟨-, text, hread, -⟩ := hlast.taken _ hp
      exact ⟨text, hread⟩
    | refers hp hrefers _ => exact hr.sound.readable _ _ (hup hp) hrefers
  case closed => exact fun p q hp hrefers hn ↦ .refers hp hrefers (hleads.base _ hn)
  case calm =>
    intro p hp hnew source hsource
    have hquiet : s.Quiet known changed p source.text := by
      have hknown := h.within (s.case.key p) (by rw [hsource]; exact Option.some_ne_none _)
      obtain ⟨source', hsource'⟩ := Option.ne_none_iff_exists'.1 hknown
      obtain ⟨hup', hkey⟩ := h.spelled _ _ hsource'
      have hpath := (h.names p hp).eq hr.sound hup' hkey.symm
      have hsame := h.same p (hpath ▸ hup') hnew source hsource
      rcases h.due p hp hnew source hsource with hstale | ⟨hchanged, hread⟩
      · exact hr.stale p hstale source hsame
      · rcases hr.changed p hchanged source source.text hsame hread with ⟨hne, -⟩ | hquiet
        · exact absurd rfl hne
        · exact hquiet
    refine ⟨hquiet.calm.welcomes, fun e he ↦ h.stays _ (hquiet.calm.known e he) ?_⟩
    exact hquiet.stays e he

theorem Passing.watchAll (h : Passing s l known stale changed loads) {rest : List Path}
    (hrest : ∀ p ∈ rest, p ∈ changed) :
    Passing s (rest.foldl (Ledger.watch s.world) l) known stale changed loads ∧
      l.Leads (rest.foldl (Ledger.watch s.world) l) := by
  induction rest generalizing l with
  | nil => exact ⟨h, .refl l⟩
  | cons p rest ih =>
    obtain ⟨hp, hrest⟩ := List.forall_mem_cons.1 hrest
    obtain ⟨hnext, hleads⟩ := h.watch hr.sound hp (hr.names p hp)
    obtain ⟨hend, hleads'⟩ := ih hnext hrest
    exact ⟨hend, hleads.trans hleads'⟩

theorem Passing.load (h : Passing s l known stale changed loads) {m : Path × String}
    (hm : m ∈ loads) :
    Passing s (l.load m) known stale changed loads ∧ (l.receive m.1 m.2).Leads (l.load m) ∧
      Passing s (l.receive m.1 m.2) known stale changed loads ∧ l.Leads (l.load m) := by
  obtain ⟨hup, hread⟩ := hr.loaded m hm
  obtain ⟨hnext, hleads⟩ := h.receive hr.sound hup hread (List.mem_map_of_mem hm)
  exact ⟨hnext.settle m.1, ⟨fun _ hk ↦ hk, fun _ hq ↦ hq⟩, hnext, hleads.base, hleads.taken⟩

theorem Passing.loadAll (h : Passing s l known stale changed loads) {rest : List (Path × String)}
    (hrest : ∀ m ∈ rest, m ∈ loads) :
    Passing s (rest.foldl Ledger.load l) known stale changed loads ∧
      l.Leads (rest.foldl Ledger.load l) := by
  induction rest generalizing l with
  | nil => exact ⟨h, .refl l⟩
  | cons m rest ih =>
    obtain ⟨hm, hrest⟩ := List.forall_mem_cons.1 hrest
    obtain ⟨hnext, -, -, hleads⟩ := h.load hr hm
    obtain ⟨hend, hleads'⟩ := ih hnext hrest
    exact ⟨hend, hleads.trans hleads'⟩

theorem passing_pass (hstart : Passing s ⟨known, [], stale⟩ known stale changed loads) :
    Passing s (.pass s.world known stale changed loads) known stale changed loads ∧
      (changed.foldl (Ledger.watch s.world) ⟨known, [], stale⟩).Leads
        (.pass s.world known stale changed loads) := by
  obtain ⟨hchanged, -⟩ := hstart.watchAll hr fun _ hp ↦ hp
  exact hchanged.loadAll hr fun _ hm ↦ hm

end Running

theorem Ledger.mem_due_watch {w : World} {q : Path} (h : q ∈ (l.watch w p).due) :
    q = p ∨ q ∈ l.due := by
  rw [watch] at h
  split at h
  · exact List.mem_cons.1 h
  · split at h
    · exact List.mem_cons.1 h
    · split at h <;> exact List.mem_cons.1 h

theorem Ledger.mem_due_load {m : Path × String} {q : Path} (h : q ∈ (l.load m).due) :
    q ≠ m.1 ∧ q ∈ l.due := by
  obtain ⟨hq, hne⟩ := List.mem_filter.1 h
  have hne : q ≠ m.1 := of_decide_eq_true hne
  refine ⟨hne, ?_⟩
  rw [receive] at hq
  split at hq
  · exact (List.mem_cons.1 hq).resolve_left hne
  · split at hq
    · exact hq
    · exact (List.mem_cons.1 hq).resolve_left hne

theorem Ledger.mem_due_pass {w : World} {q : Path}
    (h : q ∈ (pass w known stale changed loads).due) : q ∈ staleAfter stale changed loads := by
  have hwatch (rest : List Path) (l : Ledger) (hq : q ∈ (rest.foldl (watch w) l).due) :
      q ∈ l.due ∨ q ∈ rest := by
    induction rest generalizing l with
    | nil => exact Or.inl hq
    | cons p rest ih =>
      rcases ih _ hq with hq | hq
      · rcases mem_due_watch hq with rfl | hq
        · exact Or.inr List.mem_cons_self
        · exact Or.inl hq
      · exact Or.inr (List.mem_cons_of_mem p hq)
  have hload (rest : List (Path × String)) (l : Ledger) (hq : q ∈ (rest.foldl load l).due) :
      q ∈ l.due ∧ q ∉ rest.map Prod.fst := by
    induction rest generalizing l with
    | nil => exact ⟨hq, List.not_mem_nil⟩
    | cons m rest ih =>
      obtain ⟨hq, hrest⟩ := ih _ hq
      obtain ⟨hne, hq⟩ := mem_due_load hq
      exact ⟨hq, fun hm ↦ (List.mem_cons.1 hm).elim hne hrest⟩
  obtain ⟨hq, hloads⟩ := hload _ _ h
  refine List.mem_filter.2 ⟨List.mem_append.2 (hwatch _ _ hq), ?_⟩
  rw [decide_eq_true_iff]
  exact hloads

end Analysis

namespace Compilation

open Analysis (Passing staleAfter passing_start)

variable {s : Scene} {l last : Ledger} {known : FileStore} {stale changed : List Path}
  {loads : List (Path × String)} {c c' d d' : Compilation} {w : World}

variable (s known stale) in
/-- The compilation stores the known files, and has analysed those that are not stale. -/
def Knows (c : Compilation) : Prop := c.Follows s (fun _ ↦ False) ⟨known, [], stale⟩

theorem Knows.follows (h : c.Knows s known stale) (w : World) (wanted : Path → Prop) :
    c.Follows { s with world := w } wanted ⟨known, [], stale⟩ := by
  obtain ⟨hoptions, ht⟩ := h
  have hst := ht.stores
  have hbase {key : String} {source : SourceFile} (hk : c.files.files[key]? = some source)
      (hn : known.files[key]? = none) : False := (hst.new key source hk hn).1
  refine ⟨hoptions, ⟨hst.case, hst.base_case, hst.spelled, hst.old,
    fun key source hk hn ↦ (hbase hk hn).elim, fun p hp ↦ absurd hp List.not_mem_nil,
    hst.versions⟩, ht.deps_case, ht.valid, ht.invalid, ht.known,
    fun q hq ↦ absurd hq List.not_mem_nil, ?_⟩
  intro p _ hfresh hf
  obtain ⟨source, hsource⟩ := Option.ne_none_iff_exists'.1 hf
  exact (hbase hsource (hfresh.resolve_left List.not_mem_nil)).elim

theorem Knows.files_eq (h : c.Knows s known stale) : c.files.files = known.files ∧
    c.files.projectVersion = known.projectVersion := by
  have hst := h.tracks.stores
  have hfiles : c.files.files = known.files := by
    refine Std.ExtTreeMap.ext_getElem? fun key ↦ ?_
    cases hk : known.files[key]? with
    | some source => exact hst.old key source hk
    | none =>
      cases hc : c.files.files[key]? with
      | none => rfl
      | some source => exact (hst.new key source hc hk).1.elim
  have hversions := hst.versions
  rw [hfiles] at hversions
  exact ⟨hfiles, Nat.add_right_cancel hversions⟩

theorem knows_make (s : Scene) :
    (make s.options s.case).Knows s { case := s.case } [] := by
  have hnone (key : String) : ({ case := s.case } : FileStore).files[key]? = none :=
    Std.ExtTreeMap.getElem?_empty
  refine ⟨rfl, ⟨rfl, rfl, ?_, ?_, ?_, fun p hp ↦ absurd hp List.not_mem_nil, rfl⟩, rfl, ?_, ?_, ?_,
    fun q hq ↦ absurd hq List.not_mem_nil, fun p hp ↦ hp.elim⟩
  · exact fun key source hk ↦ absurd (hk.symm.trans (hnone key)) (Option.some_ne_none _)
  · exact fun key source hk ↦ absurd (hk.symm.trans (hnone key)) (Option.some_ne_none _)
  · exact fun key source hk ↦ absurd (hk.symm.trans (hnone key)) (Option.some_ne_none _)
  · intro key hv
    have hv : Analysis.isValid ∅ key = true := hv
    rw [Analysis.isValid, Std.ExtTreeMap.getElem?_empty] at hv
    cases hv
  · exact fun p _ hf ↦ absurd (hnone _) hf
  · intro key hk
    exact absurd hk Std.ExtTreeSet.not_mem_empty

/-- Modules are loaded one after the other. In between, the program may be built or
dropped. -/
inductive Loads (w : World) : List (Path × String) → Compilation → Compilation → Prop
  | done (c : Compilation) : Loads w [] c c
  | built {c c₁ c₂ : Compilation} {ms : List (Path × String)}
      (h : c₁.dropProgram = c.dropProgram) (hl : Loads w ms c₁ c₂) : Loads w ms c c₂
  | load {c c' : Compilation} {m : Path × String} {ms : List (Path × String)}
      (hl : Loads w ms ((sync w m.1 m.2).run c).state c') : Loads w (m :: ms) c c'

theorem Follows.of_dropProgram {wanted : Path → Prop} (h : c.Follows s wanted l)
    (hd : c'.dropProgram = c.dropProgram) : c'.Follows s wanted l := by
  obtain ⟨hoptions, hfiles, hdeps, hmarks, -⟩ := Compilation.mk.inj hd
  refine ⟨hoptions.trans h.options, ?_⟩
  rw [hfiles, hdeps, hmarks]
  exact h.tracks

variable (s) in
def TakesOver (step : Compilation → Path → Compilation) : Prop :=
  ∀ {c : Compilation} {wanted : Path → Prop} {l : Ledger} {p : Path}, c.Follows s wanted l →
    s.Sound → s.Names p → Wants s wanted (l.watch s.world p) →
      (step c p).Follows s wanted (l.watch s.world p)

variable (s) in
theorem takesOver_refresh :
    TakesOver s fun c p ↦ ((refresh s.world p.normalize).run c).state :=
  fun h hs hp hw ↦ h.refresh hs hp hw

variable (s) in
theorem takesOver_mirror : TakesOver s fun c p ↦ c.mirror s.world p :=
  fun h hs hp hw ↦ h.mirror hs hp hw

variable {step step' : Compilation → Path → Compilation}

section Pass

variable (hr : s.Reloads known stale changed loads)
  (hlast : Passing s last known stale changed loads)

include hr hlast

theorem Follows.loadAll {ms : List (Path × String)} (hl : Loads s.world ms c c')
    (hms : ∀ m ∈ ms, m ∈ loads) (hp : Passing s l known stale changed loads)
    (hleads : (ms.foldl Ledger.load l).Leads last) (h : c.Follows s (Fetched s last) l) :
    c'.Follows s (Fetched s last) (ms.foldl Ledger.load l) := by
  induction hl generalizing l with
  | done c => exact h
  | built hd _ ih => exact ih hms hp hleads (h.of_dropProgram hd)
  | @load c c' m ms _ ih =>
    obtain ⟨hm, hms⟩ := List.forall_mem_cons.1 hms
    obtain ⟨hup, hread⟩ := hr.loaded m hm
    obtain ⟨hnext, hsettle, hreceived, -⟩ := hp.load hr hm
    have hrest := (hnext.loadAll hr hms).2
    have hwants := hreceived.wants hr hlast (hsettle.trans (hrest.trans hleads))
    exact ih hms hnext hleads (h.sync hr.sound hup hwants hread)

theorem Follows.changeAll (hstep : TakesOver s step) {ps : List Path} (hps : ∀ p ∈ ps, p ∈ changed)
    (hp : Passing s l known stale changed loads)
    (hleads : (ps.foldl (Ledger.watch s.world) l).Leads last)
    (h : c.Follows s (Fetched s last) l) :
    (ps.foldl step c).Follows s (Fetched s last) (ps.foldl (Ledger.watch s.world) l) := by
  induction ps generalizing l c with
  | nil => exact h
  | cons p ps ih =>
    obtain ⟨hm, hps⟩ := List.forall_mem_cons.1 hps
    have hnames := hr.names p hm
    obtain ⟨hnext, -⟩ := hp.watch hr.sound hm hnames
    have hrest := (hnext.watchAll hr hps).2
    have hwants := hnext.wants hr hlast (hrest.trans hleads)
    exact ih hps hnext hleads (hstep h hr.sound hnames hwants)

theorem Follows.stored (h : c.Follows s (Fetched s last) last)
    (hdue : ∀ p ∈ last.due, p ∈ staleAfter stale changed loads) {p : Path}
    (hp : Fetched s last p) : c.files.files[s.case.key p]? ≠ none := by
  have hst := h.tracks.stores
  induction hp with
  | taken hp =>
    obtain ⟨-, source, hsource, -⟩ := hst.taken _ hp
    rw [hsource]
    exact Option.some_ne_none _
  | @refers p q hp hrefers hn ih =>
    have hfresh : p ∈ last.taken ∨ last.base.files[s.case.key p]? = none := by
      cases hp with
      | taken hp => exact Or.inl hp
      | refers _ _ hn => exact Or.inr hn
    rcases h.tracks.led p hp hfresh ih with ⟨-, ⟨_, hm, -⟩ | ⟨hb, hwaits⟩⟩ | hled
    · exact absurd hm List.not_mem_nil
    -- a file that waits has not been loaded, so its text leads to nothing new
    · obtain ⟨-, text, hread, hloaded | ⟨hchanged, source, hsource, hne⟩⟩ :=
        hlast.taken p (hfresh.resolve_right hb)
      · have hnot := of_decide_eq_true (List.mem_filter.1 (hdue p hwaits)).2
        exact absurd hloaded hnot
      · have hquiet : s.Quiet known changed p text := by
          refine (hr.changed p hchanged source text hsource hread).resolve_left fun hloaded ↦ ?_
          have hnot := of_decide_eq_true (List.mem_filter.1 (hdue p hwaits)).2
          exact absurd hloaded.2 hnot
        obtain ⟨e, he, rfl⟩ := (Analysis.refers_iff hread).1 hrefers
        exact absurd hn (hlast.stays _ (hquiet.calm.known e he) (hquiet.stays e he))
    · exact (hled q hrefers).stored

end Pass

theorem Follows.getElem?_iff (hs : s.Sound) (hup : ∀ p, Fetched s last p → s.up p)
    (h : c.Follows s (Fetched s last) last)
    (hstored : ∀ p, Fetched s last p → c.files.files[s.case.key p]? ≠ none) {key : String}
    {source : SourceFile} : c.files.files[key]? = some source ↔
      last.base.files[key]? = some source ∨ last.base.files[key]? = none ∧
        Fetched s last source.path ∧ s.case.key source.path = key ∧
        s.world.files.read source.path = .ok source.text ∧ source.version = 0 := by
  have hst := h.tracks.stores
  constructor
  · intro hk
    cases hb : last.base.files[key]? with
    | some source' => exact Or.inl ((hst.old _ _ hb).symm.trans hk)
    | none =>
      obtain ⟨hfetched, hread, hversion⟩ := hst.new _ _ hk hb
      exact Or.inr ⟨rfl, hfetched, (hst.spelled _ _ hk).2, hread, hversion⟩
  · rintro (hb | ⟨hb, hfetched, rfl, hread, hversion⟩)
    · exact hst.old _ _ hb
    · obtain ⟨source', hsource⟩ := Option.ne_none_iff_exists'.1 (hstored _ hfetched)
      obtain ⟨-, hread', hversion'⟩ := hst.new _ _ hsource hb
      have hpath := hst.path_eq hs (hup _ hfetched) hsource
      rw [hpath, hread] at hread'
      rw [hsource]
      obtain ⟨path, text, version⟩ := source
      obtain ⟨path', text', version'⟩ := source'
      dsimp only at hpath hread' hversion hversion'
      rw [hpath, ← Except.ok.inj hread', hversion', hversion]

theorem Follows.knows {wanted : Path → Prop} {files : FileStore} {stale : List Path}
    (h : c.Follows s wanted last) (hdue : ∀ p ∈ last.due, p ∈ stale)
    (hfiles : c.files.files = files.files) (hcase : files.case = s.case)
    (hversion : c.files.projectVersion = files.projectVersion) : c.Knows s files stale := by
  have hst := h.tracks.stores
  refine ⟨h.options, ⟨hst.case, hcase, hst.spelled, ?_, ?_, fun p hp ↦ absurd hp List.not_mem_nil,
    ?_⟩, h.tracks.deps_case, h.tracks.valid, fun p hp hf hn ↦ hdue p (h.tracks.invalid p hp hf hn),
    h.tracks.known, fun q hq ↦ absurd hq List.not_mem_nil, fun p hp ↦ hp.elim⟩
  · exact fun key source hk ↦ hfiles ▸ hk
  · intro key source hk hn
    rw [hfiles] at hk
    exact absurd (hk.symm.trans hn) (Option.some_ne_none _)
  · dsimp only
    rw [hfiles, hversion]

section Run

variable (hr : s.Reloads known stale changed loads) (hnames : ∀ p ∈ stale, s.Names p)

theorem Knows.passing (h : c.Knows s known stale) (hnames : ∀ p ∈ stale, s.Names p) :
    Passing s ⟨known, [], stale⟩ known stale changed loads := by
  have hst := h.tracks.stores
  have hspelled (key : String) (source : SourceFile) (hk : known.files[key]? = some source) :
      s.up source.path ∧ s.case.key source.path = key := by
    rw [← h.files_eq.1] at hk
    exact hst.spelled key source hk
  have hkept : known.Kept := by
    intro key source hk
    rw [FileStore.key, hst.base_case]
    exact (hspelled key source hk).2
  exact passing_start hspelled hst.base_case hkept hnames

include hr hnames

theorem Knows.pass (hstep : TakesOver s step) (h : c.Knows s known stale)
    (hl : Loads s.world loads (changed.foldl step c) c') :
    let last := Ledger.pass s.world known stale changed loads
    c'.Follows s (Fetched s last) last ∧
      ∀ p, Fetched s last p → c'.files.files[s.case.key p]? ≠ none := by
  intro last
  have hstart : Passing s ⟨known, [], stale⟩ known stale changed loads := h.passing hnames
  obtain ⟨hlast, hleads⟩ := Analysis.passing_pass hr hstart
  obtain ⟨hchanged, -⟩ := hstart.watchAll hr fun _ hp ↦ hp
  have hbegun := (h.follows s.world (Fetched s last)).changeAll hr hlast hstep (fun _ hp ↦ hp)
    hstart hleads
  have hend := hbegun.loadAll hr hlast hl (fun _ hm ↦ hm) hchanged (.refl last)
  exact ⟨hend, fun p hp ↦ hend.stored hr hlast (fun _ ↦ Ledger.mem_due_pass) hp⟩

/-- Whichever way changes are taken over, two compilations that knew the same files know
the same files after a pass. -/
theorem Knows.pass_alike (hc : c.Knows s known stale) (hd : d.Knows s known stale)
    (hstep : TakesOver s step) (hstep' : TakesOver s step')
    (hlc : Loads s.world loads (changed.foldl step c) c')
    (hld : Loads s.world loads (changed.foldl step' d) d') :
    c'.Knows s c'.files (staleAfter stale changed loads) ∧
      d'.Knows s c'.files (staleAfter stale changed loads) := by
  obtain ⟨hfc, hsc⟩ := hc.pass hr hnames hstep hlc
  obtain ⟨hfd, hsd⟩ := hd.pass hr hnames hstep' hld
  have hstart : Passing s ⟨known, [], stale⟩ known stale changed loads := hc.passing hnames
  obtain ⟨hlast, -⟩ := Analysis.passing_pass hr hstart
  have hdue (p : Path) (hp : p ∈ (Ledger.pass s.world known stale changed loads).due) :
      p ∈ staleAfter stale changed loads := Ledger.mem_due_pass hp
  generalize Ledger.pass s.world known stale changed loads = last at hfc hsc hfd hsd hlast hdue
  have hup (p : Path) (hp : Fetched s last p) : s.up p := hlast.up hr.sound hp
  have hfiles : d'.files.files = c'.files.files := by
    refine Std.ExtTreeMap.ext_getElem? fun key ↦ Option.ext fun source ↦ ?_
    rw [hfc.getElem?_iff hr.sound hup hsc, hfd.getElem?_iff hr.sound hup hsd]
  have hversion : d'.files.projectVersion = c'.files.projectVersion := by
    have hc := hfc.tracks.stores.versions
    have hd := hfd.tracks.stores.versions
    rw [hfiles] at hd
    omega
  have hcase := hfc.tracks.stores.case
  exact ⟨hfc.knows hdue rfl hcase rfl, hfd.knows hdue hfiles hcase hversion⟩

end Run

end Compilation

end TypedLoader
