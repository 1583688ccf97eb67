import TypedLoader.Proofs.Analysis.Fetched

namespace TypedLoader

namespace FileStore

variable {s : FileStore} {p : Path} {file : SourceFile} {text : String}

theorem update_of_path (hf : s.get? p = some file) (hp : file.path = p.normalize)
    (text : String) : s.update p text true =
      if file.text = text then (false, s)
      else (true, { s with
        files := s.files.insert (s.key p) { file with text, version := file.version + 1 }
        generation := s.generation + 1 }) := by
  rw [update, hf]
  dsimp only
  rw [if_pos hp, revise, hf]
  simp only [Bool.true_and, beq_iff_eq]

section Revised

variable (hf : s.get? p = some file) (hp : file.path = p.normalize) (hne : file.text ≠ text)

include hf hp hne

theorem getElem?_update_of_ne (key : String) : (s.update p text true).2.files[key]? =
    if s.key p = key then some { file with text, version := file.version + 1 }
    else s.files[key]? := by
  rw [update_of_path hf hp, if_neg hne, Std.ExtTreeMap.getElem?_insert]
  simp only [Std.LawfulEqCmp.compare_eq_iff_eq]

theorem update_ne_none_iff (key : String) : (s.update p text true).2.files[key]? ≠ none ↔
    s.files[key]? ≠ none := by
  rw [getElem?_update_of_ne hf hp hne]
  split
  · rename_i he
    have hkey : s.files[key]? = some file := he ▸ hf
    rw [hkey]
    exact iff_of_true (Option.some_ne_none _) (Option.some_ne_none _)
  · rfl

theorem size_update_of_ne : (s.update p text true).2.files.size = s.files.size := by
  rw [update_of_path hf hp, if_neg hne]
  exact Std.ExtTreeMap.size_insert.trans (if_pos (mem_of_get? hf))

theorem projectVersion_update_of_ne :
    (s.update p text true).2.projectVersion = s.projectVersion := by
  rw [update_of_path hf hp, if_neg hne]

end Revised

theorem update_of_none (hn : s.get? p = none) (text : String) (checked : Bool) :
    s.update p text checked = (true, s.add p text) := by
  rw [update, hn]

theorem remove_of_none (hn : s.get? p = none) : s.remove p = (none, s) := by
  rw [remove, hn]

theorem size_remove (hf : s.get? p = some file) :
    (s.remove p).2.files.size + 1 = s.files.size := by
  have hmem : s.key p ∈ s.files := mem_of_get? hf
  have hpos : s.files.size ≠ 0 := by
    intro hzero
    rw [Std.ExtTreeMap.eq_empty_iff_size_eq_zero.2 hzero] at hmem
    exact Std.ExtTreeMap.not_mem_empty hmem
  have hsize : (s.files.erase (s.key p)).size = s.files.size - 1 :=
    Std.ExtTreeMap.size_erase.trans (if_pos hmem)
  rw [remove, hf]
  dsimp only
  omega

theorem projectVersion_remove (hf : s.get? p = some file) :
    (s.remove p).2.projectVersion = s.projectVersion + 1 := by
  rw [remove, hf]

end FileStore

namespace Analysis

namespace Ledger

def renew (l : Ledger) (p : Path) (text : String) : Ledger where
  base := (l.base.update p text true).2
  taken := p :: l.taken
  due := p :: l.due

def owe (l : Ledger) (p : Path) : Ledger := { l with due := p :: l.due }

def watch (w : World) (l : Ledger) (p : Path) : Ledger :=
  match w.files.read p with
  | .error _ => { l.owe p with base := (l.base.remove p).2 }
  | .ok text =>
    match l.base.get? p with
    | none => l.owe p
    | some source => if source.text = text then l.owe p else l.renew p text

def receive (l : Ledger) (p : Path) (text : String) : Ledger :=
  match l.base.get? p with
  | none => { l with taken := p :: l.taken, due := p :: l.due }
  | some source => if source.text = text then l else l.renew p text

def settle (l : Ledger) (p : Path) : Ledger := { l with due := l.due.filter (· ≠ p) }

def load (l : Ledger) (m : Path × String) : Ledger := (l.receive m.1 m.2).settle m.1

end Ledger

variable {s : Scene} {wanted : Path → Prop} {l : Ledger} {files : FileStore}
  {deps : Dependencies} {marks : Marks} {queue : List Path} {p : Path} {text : String}
  {source : SourceFile}

theorem Tracks.enqueue (h : Tracks s wanted l files deps marks []) (hup : s.up p)
    (hf : files.files[s.case.key p]? ≠ none ∨ wanted p) :
    Tracks s wanted l files deps marks [p] := by
  have hmono {key : String} (hk : Here s files [] key) : Here s files [p] key :=
    hk.mono id fun q hq ↦ absurd hq List.not_mem_nil
  refine { h with known := fun key hk ↦ hmono (h.known key hk), waiting := ?_, led := ?_ }
  · intro q hq
    obtain rfl := List.mem_singleton.1 hq
    exact ⟨hup, hf⟩
  · intro q hq hfresh hfq
    rcases h.led q hq hfresh hfq with ⟨hnot, ⟨_, hm, -⟩ | hdue⟩ | hled
    · cases hm
    · exact Or.inl ⟨hnot, Or.inr hdue⟩
    · exact Or.inr fun r hr ↦ hmono (hled r hr)

theorem Tracks.settle (h : Tracks s wanted l files deps marks queue)
    (hv : isValid marks (s.case.key p) = true) :
    Tracks s wanted (l.settle p) files deps marks queue := by
  have hdue {q : Path} (hq : q ∈ l.due) (hnot : isValid marks (s.case.key q) = false) :
      q ∈ (l.settle p).due := by
    refine List.mem_filter.2 ⟨hq, ?_⟩
    rw [decide_eq_true_iff]
    rintro rfl
    rw [hv] at hnot
    cases hnot
  refine ⟨⟨h.stores.case, h.stores.base_case, h.stores.spelled, h.stores.old, h.stores.new,
    h.stores.taken, h.stores.versions⟩, h.deps_case, h.valid, ?_, h.known, h.waiting, ?_⟩
  · exact fun q hq hf hnot ↦ hdue (h.invalid q hq hf hnot) hnot
  · intro q hq hfresh hf
    refine (h.led q hq hfresh hf).imp_left ?_
    rintro ⟨hnot, hwait⟩
    exact ⟨hnot, hwait.imp_right fun ⟨hb, hq⟩ ↦ ⟨hb, hdue hq hnot⟩⟩

theorem Tracks.due_mono (h : Tracks s wanted l files deps marks queue) {due : List Path}
    (hdue : ∀ p ∈ l.due, p ∈ due) : Tracks s wanted { l with due } files deps marks queue := by
  refine ⟨⟨h.stores.case, h.stores.base_case, h.stores.spelled, h.stores.old, h.stores.new,
    h.stores.taken, h.stores.versions⟩, h.deps_case, h.valid, ?_, h.known, h.waiting, ?_⟩
  · exact fun q hq hf hnot ↦ hdue q (h.invalid q hq hf hnot)
  · intro q hq hfresh hf
    refine (h.led q hq hfresh hf).imp_left ?_
    rintro ⟨hnot, hwait⟩
    exact ⟨hnot, hwait.imp_right fun ⟨hb, hq⟩ ↦ ⟨hb, hdue q hq⟩⟩

theorem Tracks.owe (h : Tracks s wanted l files deps marks queue) (p : Path) :
    Tracks s wanted (l.owe p) files deps marks queue :=
  h.due_mono fun _ hq ↦ List.mem_cons_of_mem p hq

def Scene.Names (s : Scene) (p : Path) : Prop :=
  s.up p ∨ ∀ q, s.up q → s.case.key q ≠ s.case.key p

theorem Scene.Names.eq (hp : s.Names p) (hs : s.Sound) {q : Path} (hq : s.up q)
    (hk : s.case.key p = s.case.key q) : q = p := by
  rcases hp with hp | hp
  · exact hs.key q p hq hp hk.symm
  · exact absurd hk.symm (hp q hq)

theorem isValid_insert_invalid (marks : Marks) (key key' : String) :
    isValid (marks.insert key .invalid) key' = true ↔ key ≠ key' ∧ isValid marks key' = true := by
  refine ⟨isValid_of_insert_invalid, ?_⟩
  rintro ⟨hne, hv⟩
  rw [isValid, Std.ExtTreeMap.getElem?_insert, if_neg]
  · exact hv
  · exact fun he ↦ hne (Std.LawfulEqCmp.compare_eq_iff_eq.1 he)

theorem isValid_erase (marks : Marks) (key key' : String) :
    isValid (marks.erase key) key' = true ↔ key ≠ key' ∧ isValid marks key' = true := by
  refine ⟨isValid_of_erase, ?_⟩
  rintro ⟨hne, hv⟩
  rw [isValid, Std.ExtTreeMap.getElem?_erase, if_neg]
  · exact hv
  · exact fun he ↦ hne (Std.LawfulEqCmp.compare_eq_iff_eq.1 he)

theorem Tracks.invalidate (h : Tracks s wanted l files deps marks []) (hs : s.Sound)
    (hp : s.Names p) (hdue : p ∈ l.due) :
    Tracks s wanted l files deps (marks.insert (s.case.key p) .invalid) [] := by
  have hvalid := isValid_insert_invalid marks (s.case.key p)
  refine { h with valid := ?_, invalid := ?_, led := ?_ }
  · exact fun key hv ↦ h.valid key ((hvalid key).1 hv).2
  · intro q hq hf hnot
    by_cases hk : s.case.key p = s.case.key q
    · exact hp.eq hs hq hk ▸ hdue
    · refine h.invalid q hq hf (eq_false_of_ne_true fun hv ↦ ?_)
      rw [(hvalid _).2 ⟨hk, hv⟩] at hnot
      cases hnot
  · intro q hq hfresh hf
    refine (h.led q hq hfresh hf).imp_left ?_
    rintro ⟨hnot, hwait⟩
    refine ⟨eq_false_of_ne_true fun hv ↦ ?_, hwait⟩
    rw [((hvalid _).1 hv).2] at hnot
    cases hnot

theorem Stores.base_of_ne (h : Stores s wanted l files) (hs : s.Sound) (hup : s.up p)
    (hf : files.files[s.case.key p]? = some source) (hr : s.world.files.read p = .ok text)
    (hne : source.text ≠ text) : l.base.files[s.case.key p]? = some source := by
  cases hb : l.base.files[s.case.key p]? with
  | some source' => exact congrArg some (Option.some.inj ((h.old _ _ hb).symm.trans hf))
  | none =>
    obtain ⟨-, hread, -⟩ := h.new _ _ hf hb
    rw [h.path_eq hs hup hf, hr] at hread
    exact absurd (Except.ok.inj hread).symm hne

theorem Stores.renew (h : Stores s wanted l files) (hs : s.Sound) (hup : s.up p)
    (hw : Wants s wanted (l.renew p text)) (hf : files.files[s.case.key p]? = some source)
    (hr : s.world.files.read p = .ok text) (hne : source.text ≠ text) :
    (files.update p text true).1 = true ∧
      Stores s wanted (l.renew p text) (files.update p text true).2 ∧
      (∀ key : String, (files.update p text true).2.files[key]? ≠ none ↔
        files.files[key]? ≠ none) ∧
      ∀ key : String, (l.renew p text).base.files[key]? ≠ none ↔ l.base.files[key]? ≠ none := by
  have hb := h.base_of_ne hs hup hf hr hne
  have hpath : source.path = p.normalize := by rw [h.path_eq hs hup hf, hs.normal p hup]
  obtain ⟨hsup, hskey⟩ := h.spelled _ _ hf
  have hget : files.get? p = some source := by rw [FileStore.get?, h.key, hf]
  have hbget : l.base.get? p = some source := by rw [FileStore.get?, h.base_key, hb]
  have hnew (key : String) : (files.update p text true).2.files[key]? =
      if s.case.key p = key then some { source with text, version := source.version + 1 }
      else files.files[key]? := by
    rw [FileStore.getElem?_update_of_ne hget hpath hne, h.key]
  have hbnew (key : String) : (l.renew p text).base.files[key]? =
      if s.case.key p = key then some { source with text, version := source.version + 1 }
      else l.base.files[key]? := by
    rw [Ledger.renew, FileStore.getElem?_update_of_ne hbget hpath hne, h.base_key]
  refine ⟨?_, ?_, FileStore.update_ne_none_iff hget hpath hne,
    FileStore.update_ne_none_iff hbget hpath hne⟩
  · rw [FileStore.update_of_path hget hpath, if_neg hne]
  constructor
  case case => exact (FileStore.case_update files p text true).trans h.case
  case base_case => exact (FileStore.case_update l.base p text true).trans h.base_case
  case spelled =>
    intro key source' hk
    rw [hnew] at hk
    split at hk
    · rename_i he
      obtain rfl := Option.some.inj hk
      exact ⟨hsup, hskey.trans he⟩
    · exact h.spelled key source' hk
  case old =>
    intro key source' hk
    rw [hbnew] at hk
    rw [hnew]
    split
    · rename_i he
      rwa [if_pos he] at hk
    · rename_i he
      rw [if_neg he] at hk
      exact h.old key source' hk
  case new =>
    intro key source' hk hnone
    rw [hnew] at hk
    rw [hbnew] at hnone
    split at hnone
    · cases hnone
    · rename_i he
      rw [if_neg he] at hk
      exact h.new key source' hk hnone
  case taken =>
    intro q hq
    rw [hnew]
    split
    · rename_i he
      have hwq := hw.taken q hq
      obtain rfl := hs.key p q hup (hw.up q hwq) he
      exact ⟨hwq, _, rfl, hr⟩
    · rename_i he
      have hqp : q = p ∨ q ∈ l.taken := List.mem_cons.1 hq
      exact h.taken q (hqp.resolve_left fun hqp ↦ he (hqp ▸ rfl))
  case versions =>
    rw [Ledger.renew, FileStore.size_update_of_ne hget hpath hne,
      FileStore.size_update_of_ne hbget hpath hne,
      FileStore.projectVersion_update_of_ne hget hpath hne,
      FileStore.projectVersion_update_of_ne hbget hpath hne]
    exact h.versions

theorem Tracks.renew (h : Tracks s wanted l files deps marks []) (hs : s.Sound) (hup : s.up p)
    (hw : Wants s wanted (l.renew p text)) (hf : files.files[s.case.key p]? = some source)
    (hr : s.world.files.read p = .ok text) (hne : source.text ≠ text) :
    Tracks s wanted (l.renew p text) (files.update p text true).2 deps
      (marks.insert (s.case.key p) .invalid) [] := by
  obtain ⟨-, hst, hfiles, hbase⟩ := h.stores.renew hs hup hw hf hr hne
  have hvalid := isValid_insert_invalid marks (s.case.key p)
  have hmono {key : String} (hk : Here s files [] key) :
      Here s (files.update p text true).2 [] key :=
    hk.mono (hfiles key).2 fun q hq ↦ absurd hq List.not_mem_nil
  have hb := h.stores.base_of_ne hs hup hf hr hne
  constructor
  case stores => exact hst
  case deps_case => exact h.deps_case
  case valid => exact fun key hv ↦ (hfiles key).2 (h.valid key ((hvalid key).1 hv).2)
  case invalid =>
    intro q hq hfq hnot
    by_cases hk : s.case.key p = s.case.key q
    · exact hs.key p q hup hq hk ▸ List.mem_cons_self
    · refine List.mem_cons_of_mem p (h.invalid q hq ((hfiles _).1 hfq) (eq_false_of_ne_true ?_))
      exact fun hv ↦ absurd ((hvalid _).2 ⟨hk, hv⟩) (ne_true_of_eq_false hnot)
  case known => exact fun key hk ↦ hmono (h.known key hk)
  case waiting => exact fun q hq ↦ absurd hq List.not_mem_nil
  case led =>
    intro q hq hfresh hfq
    by_cases hk : s.case.key p = s.case.key q
    · obtain rfl := hs.key p q hup (hw.up q hq) hk
      refine Or.inl ⟨eq_false_of_ne_true fun hv ↦ ((hvalid _).1 hv).1 rfl,
        Or.inr ⟨(hbase _).2 ?_, List.mem_cons_self⟩⟩
      rw [hb]
      exact Option.some_ne_none _
    · have hold : q ∈ l.taken ∨ l.base.files[s.case.key q]? = none := by
        rcases hfresh with hm | hn
        · exact Or.inl ((List.mem_cons.1 hm).resolve_left fun hqp ↦ hk (hqp ▸ rfl))
        · exact Or.inr (not_not.1 fun hne' ↦ (hbase _).2 hne' hn)
      rcases h.led q hq hold ((hfiles _).1 hfq) with ⟨hnot, ⟨_, hm, -⟩ | ⟨hbq, hdue⟩⟩ | hled
      · cases hm
      · refine Or.inl ⟨eq_false_of_ne_true fun hv ↦ ?_,
          Or.inr ⟨(hbase _).2 hbq, List.mem_cons_of_mem p hdue⟩⟩
        exact absurd ((hvalid _).1 hv).2 (ne_true_of_eq_false hnot)
      · exact Or.inr fun r hr' ↦ hmono (hled r hr')

theorem Tracks.note (h : Tracks s wanted l files deps marks queue)
    (hb : l.base.files[s.case.key p]? = none) (hwanted : wanted p)
    (hf : files.files[s.case.key p]? = some source)
    (hr : s.world.files.read p = .ok source.text) :
    Tracks s wanted { l with taken := p :: l.taken, due := p :: l.due } files deps marks queue := by
  have howe := h.owe p
  refine ⟨⟨h.stores.case, h.stores.base_case, h.stores.spelled, h.stores.old, h.stores.new, ?_,
    h.stores.versions⟩, h.deps_case, h.valid, howe.invalid, h.known, h.waiting, ?_⟩
  · intro q hq
    rcases List.mem_cons.1 hq with rfl | hq
    · exact ⟨hwanted, source, hf, hr⟩
    · exact h.stores.taken q hq
  · intro q hq hfresh hfq
    refine howe.led q hq ?_ hfq
    rcases hfresh with hm | hn
    · rcases List.mem_cons.1 hm with rfl | hm
      · exact Or.inr hb
      · exact Or.inl hm
    · exact Or.inr hn

theorem Tracks.add (h : Tracks s wanted l files deps marks []) (hs : s.Sound) (hup : s.up p)
    (hw : Wants s wanted { l with taken := p :: l.taken, due := p :: l.due })
    (hn : files.files[s.case.key p]? = none) (hr : s.world.files.read p = .ok text) :
    Tracks s wanted { l with taken := p :: l.taken, due := p :: l.due } (files.add p text) deps
      (marks.insert (s.case.key p) .invalid) [p] := by
  have hwanted := hw.taken p List.mem_cons_self
  have hst := h.stores.add hs hup hn hwanted hr
  have hget := h.stores.getElem?_add hs hup text
  have hvalid := isValid_insert_invalid marks (s.case.key p)
  have hsome {key : String} (hk : files.files[key]? ≠ none) :
      (files.add p text).files[key]? ≠ none := by
    rw [hget]
    split
    · exact Option.some_ne_none _
    · exact hk
  have hmono {key : String} (hk : Here s files [] key) : Here s (files.add p text) [p] key :=
    hk.mono hsome fun q hq ↦ absurd hq List.not_mem_nil
  have hself : (files.add p text).files[s.case.key p]? = some ⟨p, text, 0⟩ := by
    rw [hget, if_pos rfl]
  constructor
  case stores =>
    refine ⟨hst.case, hst.base_case, hst.spelled, hst.old, hst.new, ?_, hst.versions⟩
    intro q hq
    rcases List.mem_cons.1 hq with rfl | hq
    · exact ⟨hwanted, _, hself, hr⟩
    · exact hst.taken q hq
  case deps_case => exact h.deps_case
  case valid => exact fun key hv ↦ hsome (h.valid key ((hvalid key).1 hv).2)
  case invalid =>
    intro q hq hfq hnot
    by_cases hk : s.case.key p = s.case.key q
    · exact hs.key p q hup hq hk ▸ List.mem_cons_self
    · rw [hget, if_neg hk] at hfq
      refine List.mem_cons_of_mem p (h.invalid q hq hfq (eq_false_of_ne_true ?_))
      exact fun hv ↦ absurd ((hvalid _).2 ⟨hk, hv⟩) (ne_true_of_eq_false hnot)
  case known => exact fun key hk ↦ hmono (h.known key hk)
  case waiting =>
    intro q hq
    obtain rfl := List.mem_singleton.1 hq
    exact ⟨hup, Or.inr hwanted⟩
  case led =>
    intro q hq hfresh hfq
    by_cases hk : s.case.key p = s.case.key q
    · exact Or.inl ⟨eq_false_of_ne_true fun hv ↦ ((hvalid _).1 hv).1 hk,
        Or.inl ⟨p, List.mem_singleton_self p, hk⟩⟩
    · rw [hget, if_neg hk] at hfq
      have hold : q ∈ l.taken ∨ l.base.files[s.case.key q]? = none :=
        hfresh.imp_left fun hm ↦ (List.mem_cons.1 hm).resolve_left fun hqp ↦ hk (hqp ▸ rfl)
      rcases h.led q hq hold hfq with ⟨hnot, ⟨_, hm, -⟩ | ⟨hbq, hdue⟩⟩ | hled
      · cases hm
      · refine Or.inl ⟨eq_false_of_ne_true fun hv ↦ ?_,
          Or.inr ⟨hbq, List.mem_cons_of_mem p hdue⟩⟩
        exact absurd ((hvalid _).1 hv).2 (ne_true_of_eq_false hnot)
      · exact Or.inr fun r hr' ↦ hmono (hled r hr')

theorem Scene.Sound.up_of_refers (hs : s.Sound) (hup : s.up p) {q : Path}
    (h : Refers s.world s.options p q) : s.up q := by
  obtain ⟨text, hr⟩ : ∃ text, s.world.files.read p = .ok text := by
    cases h with
    | module hr | path hr | types hr => exact ⟨_, hr⟩
  obtain ⟨e, he, rfl⟩ := (refers_iff hr).1 h
  obtain ⟨c, hc, hce⟩ := List.mem_filterMap.1 he
  exact (hs.welcomes p text hup hr).cites _ (cites_of_edge? ⟨rfl, rfl, rfl⟩ hc hce)

section Removing

variable (h : Stores s wanted l files) (hs : s.Sound) (hw : Wanting s wanted l) (hp : s.Names p)
  (hn : ∀ text, s.world.files.read p ≠ .ok text)

include hs hw hp hn

theorem Wanting.key_ne {q : Path} (hq : wanted q) : s.case.key p ≠ s.case.key q := by
  intro hk
  obtain ⟨text, hr⟩ := hw.read q hq
  rw [hp.eq hs (hw.up q hq) hk] at hr
  exact hn text hr

include h

theorem Stores.base_of_unreadable (hf : files.files[s.case.key p]? ≠ none) :
    l.base.files[s.case.key p]? ≠ none := by
  intro hb
  obtain ⟨source, hsource⟩ := Option.ne_none_iff_exists'.1 hf
  exact hw.key_ne hs hp hn (h.new _ _ hsource hb).1 (h.spelled _ _ hsource).2.symm

theorem Stores.remove :
    Stores s wanted { l with base := (l.base.remove p).2 } (files.remove p).2 := by
  have hget (key : String) := files.getElem?_remove p key
  have hbget (key : String) := l.base.getElem?_remove p key
  simp only [h.key] at hget
  simp only [h.base_key] at hbget
  constructor
  case case => exact (files.case_remove p).trans h.case
  case base_case => exact (l.base.case_remove p).trans h.base_case
  case spelled =>
    intro key source hk
    rw [hget] at hk
    split at hk
    · cases hk
    · exact h.spelled key source hk
  case old =>
    intro key source hk
    dsimp only at hk
    rw [hbget] at hk
    rw [hget]
    split
    · rename_i he
      rw [if_pos he] at hk
      cases hk
    · rename_i he
      rw [if_neg he] at hk
      exact h.old key source hk
  case new =>
    intro key source hk hnone
    dsimp only at hnone
    rw [hget] at hk
    rw [hbget] at hnone
    split at hk
    · cases hk
    · rename_i he
      rw [if_neg he] at hnone
      exact h.new key source hk hnone
  case taken =>
    intro q hq
    rw [hget, if_neg (hw.key_ne hs hp hn (hw.taken q hq))]
    exact h.taken q hq
  case versions =>
    have hold := h.versions
    by_cases hf : files.files[s.case.key p]? = none
    · have hb := h.base_eq_none hf
      rw [FileStore.remove_of_none (by rw [FileStore.get?, h.key, hf]),
        FileStore.remove_of_none (by rw [FileStore.get?, h.base_key, hb])]
      exact hold
    · have hb := h.base_of_unreadable hs hw hp hn hf
      obtain ⟨source, hsource⟩ := Option.ne_none_iff_exists'.1 hf
      obtain ⟨source', hsource'⟩ := Option.ne_none_iff_exists'.1 hb
      rw [← h.key] at hsource
      rw [← h.base_key] at hsource'
      have hsize := FileStore.size_remove hsource
      have hbsize := FileStore.size_remove hsource'
      have hversion := FileStore.projectVersion_remove hsource
      have hbversion := FileStore.projectVersion_remove hsource'
      dsimp only
      omega

omit h

theorem Tracks.remove (h : Tracks s wanted l files deps marks []) :
    Tracks s wanted { l with base := (l.base.remove p).2 } (files.remove p).2 (deps.remove p)
      (marks.erase (s.case.key p)) [] := by
  have hvalid := isValid_erase marks (s.case.key p)
  have hfiles {key : String} : (files.remove p).2.files[key]? ≠ none ↔
      s.case.key p ≠ key ∧ files.files[key]? ≠ none := by
    rw [files.getElem?_remove, h.stores.key]
    split
    · rename_i he
      exact iff_of_false (fun hne ↦ hne rfl) fun hne ↦ hne.1 he
    · rename_i he
      exact (and_iff_right he).symm
  constructor
  case stores => exact h.stores.remove hs hw hp hn
  case deps_case => exact h.deps_case
  case valid =>
    intro key hv
    obtain ⟨hne, hv⟩ := (hvalid key).1 hv
    exact hfiles.2 ⟨hne, h.valid key hv⟩
  case invalid =>
    intro q hq hfq hnot
    obtain ⟨hne, hfq⟩ := hfiles.1 hfq
    refine h.invalid q hq hfq (eq_false_of_ne_true fun hv ↦ ?_)
    exact absurd ((hvalid _).2 ⟨hne, hv⟩) (ne_true_of_eq_false hnot)
  case known =>
    intro key hk
    have hk : key ∈ deps.declarations.erase (deps.key p) := hk
    rw [Std.ExtTreeSet.mem_erase, Ne, Std.LawfulEqCmp.compare_eq_iff_eq, Dependencies.key,
      h.deps_case] at hk
    exact Or.inl (hfiles.2 ⟨hk.1, (h.known key hk.2).stored⟩)
  case waiting => exact fun q hq ↦ absurd hq List.not_mem_nil
  case led =>
    intro q hq hfresh hfq
    obtain ⟨hne, hfq⟩ := hfiles.1 hfq
    have hbase : (l.base.remove p).2.files[s.case.key q]? = l.base.files[s.case.key q]? := by
      rw [l.base.getElem?_remove, h.stores.base_key, if_neg hne]
    dsimp only at hfresh ⊢
    rw [hbase] at hfresh ⊢
    rcases h.led q hq hfresh hfq with ⟨hnot, ⟨_, hm, -⟩ | hdue⟩ | hled
    · cases hm
    · refine Or.inl ⟨eq_false_of_ne_true fun hv ↦ ?_, Or.inr hdue⟩
      exact absurd ((hvalid _).1 hv).2 (ne_true_of_eq_false hnot)
    · refine Or.inr fun r hr ↦ Or.inl (hfiles.2 ⟨?_, (hled r hr).stored⟩)
      intro hk
      obtain ⟨text, hread⟩ := hs.readable q r (hw.up q hq) hr
      rw [hp.eq hs (hs.up_of_refers (hw.up q hq) hr) hk] at hread
      exact hn text hread

end Removing

end Analysis

end TypedLoader
