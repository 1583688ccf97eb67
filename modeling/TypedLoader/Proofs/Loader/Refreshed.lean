import TypedLoader.Proofs.Analysis.Announced
import TypedLoader.Proofs.Analysis.Contained
import TypedLoader.Proofs.FileStore.Edits
import TypedLoader.Proofs.Loader.Rebuilds
import TypedLoader.Proofs.Path.Raw

namespace TypedLoader

open Analysis (Walk)

structure Loaded (w : World) (case : PathCase) (visited : List Path) (key : String)
    (source : SourceFile) : Prop where
  visited : source.path ∈ visited
  key : case.key source.path = key
  normal : source.path.normalize = source.path
  read : w.files.read source.path = .ok source.text
  version : source.version = 0

theorem Loaded.mono {w : World} {case : PathCase} {visited visited' : List Path} {key : String}
    {source : SourceFile} (h : Loaded w case visited key source) (hv : visited ⊆ visited') :
    Loaded w case visited' key source := { h with visited := hv h.visited }

/-- What an analysis does to the files, whether or not it fails. -/
structure Analyses (w : World) (visited : List Path) (c c' : Compilation) : Prop where
  tidy : c'.Tidy
  case : c'.files.case = c.files.case
  kept : ∀ q source, c.get? q = some source → c'.get? q = some source
  gained : ∀ q source, c.get? q = none → c'.get? q = some source →
    Loaded w c.files.case visited (c.files.key q) source
  valid : ∀ q, c'.isValid q = true → c.isValid q = true ∨
    c.files.key q ∈ visited.map c.files.key

theorem Analyses.refl (w : World) {c : Compilation} (h : c.Tidy) : Analyses w [] c c where
  tidy := h
  case := rfl
  kept _ _ hs := hs
  gained q source hn hs := by cases hn.symm.trans hs
  valid _ hv := Or.inl hv

namespace Compilation

variable {w : World} {c c₁ c' : Compilation} {p q : Path}

theorem normalize_of_analyzed (h : c.Tidy) (w : World) (p : Path) :
    ∀ r ∈ (Walk.run w c.options (c.walk p)).state.analyzed, r.normalize = r := by
  obtain ⟨-, hann⟩ := Walk.explored w c.options (c := c.walk p) h.case rfl
    (List.forall_mem_singleton.2 (Path.normalize_normalize p))
  have hstate := (Walk.run_eq_explore w c.options (c.walk p)).2
  have hanalyzed : (Walk.run w c.options (c.walk p)).state.analyzed =
      (Walk.explore w c.options (c.walk p)).state.analyzed := by
    rw [hstate]
    split <;> rfl
  intro r hr
  exact hann.normal r (List.mem_append_left _ (hanalyzed ▸ hr))

/-- Where an analysis stops it has only read files into the store, and what is valid has
been visited or was valid before. -/
theorem since_check (w : World) (c : Compilation) (p : Path) :
    let state := (Walk.run w c.options (c.walk p)).state
    ∃ k, Walk.Since w (c.walk p) k ∧ state.files = k.files ∧ state.analyzed = k.analyzed ∧
      ∀ key, Analysis.isValid state.marks key = true → Analysis.isValid k.marks key = true := by
  obtain ⟨k, calls, calls', hturns, hend, -⟩ := Walk.run_turns w c.options (c.walk p)
  have hsince := (Walk.since_start (w := w) (c := c.walk p) rfl).turns hturns
  generalize Walk.run w c.options (c.walk p) = o at hend ⊢
  obtain ⟨result, state, _⟩ := o
  dsimp only at hend ⊢
  cases hend with
  | done hq => exact ⟨k, hsince, rfl, rfl, fun _ hv ↦ hv⟩
  | @failed k' file queue e calls' hq hv hvisit =>
    refine ⟨k', hsince.visit hv hvisit, rfl, rfl, fun key hvalid ↦ ?_⟩
    rw [Analysis.isValid, Walk.abandon, Walk.getElem?_foldl_invalid] at hvalid
    split at hvalid
    · cases hvalid
    · exact hvalid

theorem analyses_check (h : c.Tidy) (w : World) (p : Path) :
    Analyses w (Walk.run w c.options (c.walk p)).state.analyzed c
      ((check w p).run c).state := by
  obtain ⟨k, hsince, hfiles, hanalyzed, hmarks⟩ := since_check w c p
  have hnormal := normalize_of_analyzed h w p
  have hstate : ((check w p).run c).state =
      c.withWalk (Walk.run w c.options (c.walk p)).state := congrArg Outcome.state (run_check w p c)
  have htidy := h.check w p
  rw [hstate] at htidy ⊢
  generalize (Walk.run w c.options (c.walk p)).state = state at hfiles hanalyzed hmarks hnormal htidy ⊢
  have hget (q : Path) : (c.withWalk state).get? q = k.files.files[c.files.key q]? := by
    have hkey : state.files.key q = c.files.key q := hfiles ▸ hsince.key q
    have hlookup : (c.withWalk state).get? q = state.files.files[state.files.key q]? := rfl
    rw [hlookup, hkey, hfiles]
  refine ⟨htidy, ?_, fun q source hs ↦ ?_, fun q source hn hs ↦ ?_, fun q hv ↦ ?_⟩
  · exact (congrArg FileStore.case hfiles).trans hsince.case
  · rw [hget]
    exact hsince.kept _ source hs
  · rw [hget] at hs
    rcases hsince.gained _ source hs with hold | ⟨r, hr, hkey, text, hread, rfl⟩
    · cases hn.symm.trans hold
    · rw [← hanalyzed] at hr
      rw [hnormal r hr]
      exact ⟨hr, hkey, hnormal r hr, hread, rfl⟩
  · have hkey : state.files.key q = c.files.key q := hfiles ▸ hsince.key q
    have hv : Analysis.isValid state.marks (c.files.key q) = true := hkey ▸ hv
    rw [hanalyzed]
    exact ((hsince.isValid_iff _).1 (hmarks _ hv)).symm

def visitedBy (w : World) (c : Compilation) (p : Path) : List Path :=
  if c.has p then
    match w.files.read p with
    | .error _ => []
    | .ok text =>
      let (stored, c) := (c.invalidate p).update p text true
      if stored then (Walk.run w c.options (c.walk p)).state.analyzed else []
  else []

def visitedByAll (w : World) (c : Compilation) : List Path → List Path
  | [] => []
  | p :: rest => c.visitedBy w p ++ ((refresh w p).run c).state.visitedByAll w rest

end Compilation

structure Refreshes (w : World) (changed visited : List Path) (c c' : Compilation) : Prop where
  tidy : c'.Tidy
  case : c'.files.case = c.files.case
  others : ∀ q source, c.files.key q ∉ changed.map c.files.key → c.get? q = some source →
    c'.get? q = some source
  renewed : ∀ p ∈ changed, ∀ source text, c.get? p = some source → w.files.read p = .ok text →
    c'.get? p = some ⟨p.normalize, text,
      if source.text = text then source.version else source.version + 1⟩
  removed : ∀ p ∈ changed, ∀ cause, w.files.read p = .error cause → ∀ source,
    c'.get? p = some source → Loaded w c.files.case visited (c.files.key p) source
  unknown : ∀ p ∈ changed, c.get? p = none → ∀ source, c'.get? p = some source →
    w.files.read p = .ok source.text ∨ Loaded w c.files.case visited (c.files.key p) source
  gained : ∀ q source, c.files.key q ∉ changed.map c.files.key → c.get? q = none →
    c'.get? q = some source → Loaded w c.files.case visited (c.files.key q) source
  valid : ∀ q, c'.isValid q = true →
    c.isValid q = true ∧ c.files.key q ∉ changed.map c.files.key ∨
      c.files.key q ∈ visited.map c.files.key

theorem Refreshes.untouched {w : World} {changed visited : List Path} {c c' : Compilation}
    (h : Refreshes w changed visited c c') {q : Path} {source : SourceFile}
    (hq : c.files.key q ∉ changed.map c.files.key) (hs : c'.get? q = some source) :
    c.get? q = some source ∨ Loaded w c.files.case visited (c.files.key q) source := by
  cases hold : c.get? q with
  | none => exact Or.inr (h.gained q source hq hold hs)
  | some source₀ => exact Or.inl ((h.others q source₀ hq hold).symm.trans hs)

theorem Refreshes.in_line {w : World} {changed visited : List Path} {c c' : Compilation}
    (h : Refreshes w changed visited c c') {p : Path} {source : SourceFile} (hp : p ∈ changed)
    (hs : c'.get? p = some source) : w.files.read p = .ok source.text ∨
      Loaded w c.files.case visited (c.files.key p) source := by
  cases hread : w.files.read p with
  | error cause => exact Or.inr (h.removed p hp cause hread source hs)
  | ok text =>
    cases hold : c.get? p with
    | none => exact hread ▸ h.unknown p hp hold source hs
    | some source₀ =>
      obtain rfl := Option.some.inj ((h.renewed p hp source₀ text hold hread).symm.trans hs)
      exact Or.inl rfl

theorem Refreshes.differs {w : World} {changed visited : List Path} {c c' : Compilation}
    (h : Refreshes w changed visited c c') {q : Path} {source source' : SourceFile}
    (hs : c.get? q = some source) (hs' : c'.get? q = some source')
    (hlt : source.version < source'.version) : source'.text ≠ source.text := by
  by_cases hq : c.files.key q ∈ changed.map c.files.key
  · obtain ⟨p, hp, he⟩ := List.mem_map.1 hq
    have hsame : c.get? p = c.get? q := congrArg (c.files.files[·]?) he
    have hsame' : c'.get? p = c'.get? q := by
      have hcases := FileStore.key_eq_key_of_case h.case
      exact congrArg (c'.files.files[·]?) ((hcases p).trans (he.trans (hcases q).symm))
    rw [← hsame] at hs
    rw [← hsame'] at hs'
    cases hread : w.files.read p with
    | error cause =>
      have hzero := (h.removed p hp cause hread source' hs').version
      omega
    | ok text =>
      obtain rfl := Option.some.inj ((h.renewed p hp source text hs hread).symm.trans hs')
      dsimp only at hlt ⊢
      split at hlt
      · exact absurd hlt (Nat.lt_irrefl _)
      · rename_i hne
        exact Ne.symm hne
  · obtain rfl := Option.some.inj ((h.others q source hq hs).symm.trans hs')
    exact absurd hlt (Nat.lt_irrefl _)

namespace Compilation

variable {w : World} {c c₁ c' : Compilation} {p q : Path} {changed visited visited' : List Path}

theorem has_eq_isSome_get? (c : Compilation) (p : Path) : c.has p = (c.get? p).isSome :=
  Std.ExtTreeMap.contains_eq_isSome_getElem?

theorem get?_normalize (c : Compilation) (p : Path) : c.get? p.normalize = c.get? p :=
  congrArg (c.files.files[·]?) (c.files.case.key_normalize p)

theorem get?_update (h : c.Tidy) (p : Path) (text : String) (q : Path) :
    (c.update p text true).2.get? q =
      if c.files.key p = c.files.key q then (TypedLoader.Edit.update p text true (c.get? p)).entry
      else c.get? q := by
  have hkey : (c.update p text true).2.files.key q = c.files.key q :=
    FileStore.key_eq_key_of_case (FileStore.case_update c.files p text true) q
  have hget : (c.update p text true).2.get? q =
      (c.files.update p text true).2.files[(c.update p text true).2.files.key q]? := rfl
  rw [hget, hkey, FileStore.update_eq_edit h.kept, FileStore.getElem?_edit]
  rfl

theorem get?_remove (c : Compilation) (p q : Path) : (c.remove p).2.get? q =
    if c.files.key p = c.files.key q then none else c.get? q := by
  have hkey : (c.remove p).2.files.key q = c.files.key q :=
    FileStore.key_eq_key_of_case (FileStore.case_remove c.files p) q
  have hget : (c.remove p).2.get? q =
      (c.files.remove p).2.files[(c.remove p).2.files.key q]? := rfl
  rw [hget, hkey, FileStore.getElem?_remove]
  rfl

theorem isValid_invalidate : (c.invalidate p).isValid q = true →
    c.isValid q = true ∧ c.files.key q ≠ c.files.key p := by
  intro hv
  obtain ⟨hne, hv⟩ := Analysis.isValid_of_insert_invalid hv
  exact ⟨hv, hne.symm⟩

theorem refreshes_of_missing (h : c.Tidy) (hn : c.get? p = none) :
    Refreshes w [p] [] c (c.invalidate p) where
  tidy := h.invalidate p
  case := rfl
  others _ _ _ hs := hs
  renewed q hq source text hs _ := by
    obtain rfl := List.mem_singleton.1 hq
    cases hn.symm.trans hs
  removed q hq cause _ source hs := by
    obtain rfl := List.mem_singleton.1 hq
    cases hn.symm.trans hs
  unknown q hq _ source hs := by
    obtain rfl := List.mem_singleton.1 hq
    cases hn.symm.trans hs
  gained q source _ hn hs := by cases hn.symm.trans hs
  valid q hv := by
    obtain ⟨hv, hne⟩ := isValid_invalidate hv
    exact Or.inl ⟨hv, fun hm ↦ hne (List.mem_singleton.1 hm)⟩

theorem refreshes_of_unreadable (h : c.Tidy) {source : SourceFile} (hs : c.get? p = some source)
    {cause : ReadFailure} (hread : w.files.read p = .error cause) :
    Refreshes w [p] [] c ((c.invalidate p).remove p).2 := by
  have hget (q : Path) : ((c.invalidate p).remove p).2.get? q =
      if c.files.key p = c.files.key q then none else c.get? q := get?_remove (c.invalidate p) p q
  have hsingle {q : Path} (hq : c.files.key q ∉ [p].map c.files.key) :
      c.files.key p ≠ c.files.key q := fun he ↦ hq (List.mem_singleton.2 he.symm)
  constructor
  case tidy => exact (h.invalidate p).remove p
  case case => exact FileStore.case_remove c.files p
  case others =>
    intro q source' hq hs'
    rw [hget, if_neg (hsingle hq)]
    exact hs'
  case renewed =>
    intro q hq source' text _ hr
    obtain rfl := List.mem_singleton.1 hq
    cases hread.symm.trans hr
  case removed =>
    intro q hq cause' _ source' hs'
    obtain rfl := List.mem_singleton.1 hq
    rw [hget, if_pos rfl] at hs'
    cases hs'
  case unknown =>
    intro q hq hn
    obtain rfl := List.mem_singleton.1 hq
    cases hn.symm.trans hs
  case gained =>
    intro q source' hq hn hs'
    rw [hget, if_neg (hsingle hq), hn] at hs'
    cases hs'
  case valid =>
    intro q hv
    have hkey : ((c.invalidate p).remove p).2.files.key q = c.files.key q :=
      FileStore.key_eq_key_of_case (FileStore.case_remove c.files p) q
    obtain ⟨hne, hv⟩ := Analysis.isValid_of_erase hv
    rw [hkey] at hne hv
    obtain ⟨-, hv⟩ := Analysis.isValid_of_insert_invalid hv
    exact Or.inl ⟨hv, fun hm ↦ hne (List.mem_singleton.1 hm).symm⟩

theorem refreshes_of_text (h : c.Tidy) {source : SourceFile} (hs : c.get? p = some source)
    {text : String} (hread : w.files.read p = .ok text)
    (ha : Analyses w visited ((c.invalidate p).update p text true).2 c') :
    Refreshes w [p] visited c c' := by
  have hcase : ((c.invalidate p).update p text true).2.files.case = c.files.case :=
    FileStore.case_update c.files p text true
  have hkey (q : Path) : ((c.invalidate p).update p text true).2.files.key q = c.files.key q :=
    FileStore.key_eq_key_of_case hcase q
  have hentry : (TypedLoader.Edit.update p text true (some source)).entry = some ⟨p.normalize, text,
      if source.text = text then source.version else source.version + 1⟩ := by
    by_cases he : source.text = text
    · subst he
      simp [TypedLoader.Edit.update]
    · simp [TypedLoader.Edit.update, he]
  have hget (q : Path) : ((c.invalidate p).update p text true).2.get? q =
      if c.files.key p = c.files.key q then some ⟨p.normalize, text,
        if source.text = text then source.version else source.version + 1⟩
      else c.get? q := by
    have hfound : (c.invalidate p).get? p = some source := hs
    have hupdate := get?_update (h.invalidate p) p text q
    rw [hfound, hentry] at hupdate
    exact hupdate
  have hsingle {q : Path} (hq : c.files.key q ∉ [p].map c.files.key) :
      c.files.key p ≠ c.files.key q := fun he ↦ hq (List.mem_singleton.2 he.symm)
  constructor
  case tidy => exact ha.tidy
  case case => exact ha.case.trans hcase
  case others =>
    intro q source' hq hs'
    refine ha.kept q source' ?_
    rw [hget, if_neg (hsingle hq)]
    exact hs'
  case renewed =>
    intro q hq source' text' hs' hr
    obtain rfl := List.mem_singleton.1 hq
    obtain rfl := Option.some.inj (hs.symm.trans hs')
    obtain rfl := Except.ok.inj (hread.symm.trans hr)
    refine ha.kept q _ ?_
    rw [hget, if_pos rfl]
  case removed =>
    intro q hq cause hr
    obtain rfl := List.mem_singleton.1 hq
    cases hread.symm.trans hr
  case unknown =>
    intro q hq hn
    obtain rfl := List.mem_singleton.1 hq
    cases hn.symm.trans hs
  case gained =>
    intro q source' hq hn hs'
    rw [← hcase, ← hkey]
    refine ha.gained q source' ?_ hs'
    rw [hget, if_neg (hsingle hq)]
    exact hn
  case valid =>
    intro q hv
    rcases ha.valid q hv with hv | hm
    · have hv : Analysis.isValid (c.invalidate p).marks (c.files.key q) = true := hkey q ▸ hv
      obtain ⟨hv, hne⟩ := isValid_invalidate hv
      exact Or.inl ⟨hv, fun hm ↦ hne (List.mem_singleton.1 hm)⟩
    · exact Or.inr ((funext hkey : _ = c.files.key) ▸ hm)

theorem refreshes_refresh (h : c.Tidy) (w : World) (p : Path) :
    Refreshes w [p] (c.visitedBy w p) c ((refresh w p).run c).state := by
  rw [(run_refresh w p c).2, visitedBy, has_eq_isSome_get?]
  cases hs : c.get? p with
  | none => exact refreshes_of_missing h hs
  | some source =>
    rw [Option.isSome_some, if_pos rfl, if_pos rfl]
    cases hread : w.files.read p with
    | error cause => exact refreshes_of_unreadable h hs hread
    | ok text =>
      have htidy := (h.invalidate p).update p text true
      dsimp only
      refine refreshes_of_text h hs hread ?_
      split
      · exact analyses_check htidy w p
      · exact .refl w htidy

/-- One change and then others. A file among the others that has the key of the first one is
the first one. -/
theorem refreshes_cons {rest : List Path} (h : Refreshes w [p] visited c c₁)
    (h' : Refreshes w rest visited' c₁ c')
    (hrest : ∀ q ∈ rest, c.files.key q = c.files.key p → q = p) :
    Refreshes w (p :: rest) (visited ++ visited') c c' := by
  have hkey : c₁.files.key = c.files.key := funext (FileStore.key_eq_key_of_case h.case)
  have hleft {key : String} {source : SourceFile} (hl : Loaded w c.files.case visited key source) :
      Loaded w c.files.case (visited ++ visited') key source :=
    hl.mono (List.subset_append_left _ _)
  have hright {q : Path} {source : SourceFile}
      (hl : Loaded w c₁.files.case visited' (c₁.files.key q) source) :
      Loaded w c.files.case (visited ++ visited') (c.files.key q) source := by
    rw [hkey, h.case] at hl
    exact hl.mono (List.subset_append_right _ _)
  have hsingle {q : Path} (hq : c.files.key q ≠ c.files.key p) :
      c.files.key q ∉ [p].map c.files.key := fun hm ↦ hq (List.mem_singleton.1 hm)
  have hsplit {q : Path} (hq : c.files.key q ∉ (p :: rest).map c.files.key) :
      c.files.key q ≠ c.files.key p ∧ c₁.files.key q ∉ rest.map c₁.files.key := by
    rw [hkey]
    exact not_or.1 (mt List.mem_cons.2 hq)
  -- a changed file is the first one and no other, or one of the others
  have hcases {q : Path} (hq : q ∈ p :: rest) :
      q ∈ rest ∨ q = p ∧ c₁.files.key q ∉ rest.map c₁.files.key := by
    by_cases hm : q ∈ rest
    · exact Or.inl hm
    · obtain rfl := (List.mem_cons.1 hq).resolve_right hm
      refine Or.inr ⟨rfl, fun hk ↦ hm ?_⟩
      rw [hkey] at hk
      obtain ⟨q', hq', he⟩ := List.mem_map.1 hk
      exact hrest q' hq' he ▸ hq'
  constructor
  case tidy => exact h'.tidy
  case case => exact h'.case.trans h.case
  case others =>
    intro q source hq hs
    obtain ⟨hne, hq⟩ := hsplit hq
    exact h'.others q source hq (h.others q source (hsingle hne) hs)
  case renewed =>
    intro q hq source text hs hr
    by_cases he : c.files.key q = c.files.key p
    · have hqp : q = p := (List.mem_cons.1 hq).elim id fun hm ↦ hrest q hm he
      subst hqp
      have hfirst := h.renewed q List.mem_cons_self source text hs hr
      rcases hcases hq with hm | ⟨-, hk⟩
      · have hagain := h'.renewed q hm _ text hfirst hr
        rwa [if_pos rfl] at hagain
      · exact h'.others q _ hk hfirst
    · have hm := (List.mem_cons.1 hq).resolve_left fun hqp ↦ he (congrArg c.files.key hqp)
      exact h'.renewed q hm source text (h.others q source (hsingle he) hs) hr
  case removed =>
    intro q hq cause hr source hs
    rcases hcases hq with hm | ⟨rfl, hk⟩
    · exact hright (h'.removed q hm cause hr source hs)
    · rcases h'.untouched hk hs with hfirst | hl
      · exact hleft (h.removed q List.mem_cons_self cause hr source hfirst)
      · exact hright hl
  case unknown =>
    intro q hq hn source hs
    rcases hcases hq with hm | ⟨rfl, hk⟩
    · exact (h'.in_line hm hs).imp_right hright
    · rcases h'.untouched hk hs with hfirst | hl
      · exact (h.unknown q List.mem_cons_self hn source hfirst).imp_right hleft
      · exact Or.inr (hright hl)
  case gained =>
    intro q source hq hn hs
    obtain ⟨hne, hq⟩ := hsplit hq
    rcases h'.untouched hq hs with hfirst | hl
    · exact hleft (h.gained q source (hsingle hne) hn hfirst)
    · exact hright hl
  case valid =>
    intro q hv
    rw [List.map_append, List.mem_append]
    rcases h'.valid q hv with ⟨hv, hq⟩ | hm
    · rw [hkey] at hq
      refine (h.valid q hv).imp (fun ⟨hv, hp⟩ ↦ ⟨hv, ?_⟩) Or.inl
      exact mt List.mem_cons.1 (not_or.2 ⟨fun he ↦ hp (List.mem_singleton.2 he), hq⟩)
    · rw [hkey] at hm
      exact Or.inr (Or.inr hm)

theorem refreshes_nil (w : World) (h : c.Tidy) : Refreshes w [] [] c c where
  tidy := h
  case := rfl
  others _ _ _ hs := hs
  renewed _ hp := absurd hp List.not_mem_nil
  removed _ hp := absurd hp List.not_mem_nil
  unknown _ hp := absurd hp List.not_mem_nil
  gained q source _ hn hs := by cases hn.symm.trans hs
  valid _ hv := Or.inl ⟨hv, List.not_mem_nil⟩

theorem refreshes_foldl (w : World) (h : c.Tidy)
    (hchanged : ∀ p ∈ changed, ∀ q ∈ changed, c.files.key q = c.files.key p → q = p) :
    Refreshes w changed (c.visitedByAll w changed) c
      (changed.foldl (fun c p ↦ ((refresh w p).run c).state) c) := by
  induction changed generalizing c with
  | nil => exact refreshes_nil w h
  | cons p rest ih =>
    have hfirst := refreshes_refresh h w p
    have hkey : ((refresh w p).run c).state.files.key = c.files.key :=
      funext (FileStore.key_eq_key_of_case hfirst.case)
    refine refreshes_cons hfirst (ih hfirst.tidy fun p hp q hq he ↦ ?_) fun q hq he ↦ ?_
    · rw [hkey] at he
      exact hchanged p (List.mem_cons_of_mem _ hp) q (List.mem_cons_of_mem _ hq) he
    · exact hchanged p List.mem_cons_self q (List.mem_cons_of_mem _ hq) he

theorem case_operation (c : Compilation) (op : Operation) :
    (op.run c).1.files.case = c.files.case := by
  have hbuilt : ∀ (c' : Compilation) (built : Option BuiltProgram),
      c'.files.case = c.files.case →
        ({ c' with built } : Compilation).files.case = c.files.case := fun _ _ h ↦ h
  cases op with
  | add p text => rfl
  | update p text checked => exact FileStore.case_update c.files p text checked
  | remove p => exact FileStore.case_remove c.files p
  | rename source target =>
    have hfiles := FileStore.case_rename c.files source target
    rw [Operation.run, Compilation.rename]
    rcases hrename : c.files.rename source target with ⟨_ | _, files⟩
    · rfl
    · rw [hrename] at hfiles
      exact hfiles
  | invalidate p => rfl
  | check w p =>
    obtain ⟨k, hsince, hfiles, -, -⟩ := since_check w c p
    rw [Operation.run, run_check]
    exact (congrArg FileStore.case hfiles).trans hsince.case
  | fetch w p =>
    rw [Operation.run, fetch, Action.run_bind, Action.run_call]
    cases w.files.read p with
    | error cause => rfl
    | ok text => exact FileStore.case_update c.files p text true
  | resolveModule w p name => rfl
  | resolveTypes w p name => rfl
  | dropProgram => rfl
  | program w => exact keeps_program w hbuilt c rfl
  | emitOutput w p => exact keeps_emitOutput w p hbuilt c rfl
  | emit w p => exact keeps_emit w p hbuilt c rfl
  | emitOrTranspile w p transpileOnly =>
    exact keeps_emitOrTranspile w p hbuilt transpileOnly c rfl
  | reports w f context => exact keeps_reports w hbuilt f context c rfl

theorem case_perform (c : Compilation) (ops : List Operation) :
    (c.perform ops).1.files.case = c.files.case := by
  induction ops generalizing c with
  | nil => rfl
  | cons op rest ih => exact (ih (op.run c).1).trans (case_operation c op)

end Compilation

theorem Path.eq_of_key {p q : Path} (hp : p.IsPlain) (hq : q.IsPlain) (hpn : p.normalize = p)
    (hqn : q.normalize = q) (h : PathCase.sensitive.key q = PathCase.sensitive.key p) : q = p := by
  rw [Path.key_of_isPlain hp hpn, Path.key_of_isPlain hq hqn] at h
  exact congrArg Path.mk h

namespace Instance

variable {s : Surroundings} {i : Instance} {changed : List Path}

theorem run_filesChanged_here (s : Surroundings) (changed : List Path) (h : i.checker = none) :
    let o := (filesChanged s changed).run i
    let d := changed.foldl (fun c p ↦
      ((Compilation.refresh s.world p.normalize).run c).state) i.compilation
    o.result = .ok () ∧ (o.state.compilation = d ∨ o.state.compilation = d.dropProgram) := by
  intro o d
  obtain ⟨-, hstate⟩ := run_refresh s changed i.compilation
  have hrun : ((filesChanged s changed).run i).result = .ok () ∧
      ((filesChanged s changed).run i).state = _ := run_filesChanged (run_perform_here h)
  obtain ⟨hresult, hleft⟩ := hrun
  refine ⟨hresult, ?_⟩
  have hcompilation : o.state.compilation = ((refresh s changed).run i.compilation).state :=
    congrArg Instance.compilation hleft
  rw [hcompilation]
  exact hstate

theorem refreshes_filesChanged (s : Surroundings) (h : i.checker = none)
    (htidy : i.compilation.Tidy) (hcase : i.compilation.files.case = .sensitive)
    (hplain : ∀ p ∈ changed, p.IsPlain) :
    let ps := changed.map Path.normalize
    Refreshes s.world ps (i.compilation.visitedByAll s.world ps) i.compilation
      ((filesChanged s changed).run i).state.compilation := by
  intro ps
  have hps : ∀ p ∈ ps, p.IsPlain ∧ p.normalize = p := by
    intro p hp
    obtain ⟨q, hq, rfl⟩ := List.mem_map.1 hp
    exact ⟨(hplain q hq).normalize, q.normalize_normalize⟩
  have hkeys : ∀ p ∈ ps, ∀ q ∈ ps, i.compilation.files.key q = i.compilation.files.key p →
      q = p := by
    intro p hp q hq he
    rw [FileStore.key, FileStore.key, hcase] at he
    exact Path.eq_of_key (hps p hp).1 (hps q hq).1 (hps p hp).2 (hps q hq).2 he
  have hfold := Compilation.refreshes_foldl s.world htidy hkeys
  rw [List.foldl_map] at hfold
  obtain ⟨-, hleft | hleft⟩ := run_filesChanged_here s changed h
  · rw [hleft]
    exact hfold
  · rw [hleft]
    exact ⟨hfold.tidy.dropProgram, hfold.case, hfold.others, hfold.renewed, hfold.removed,
      hfold.unknown, hfold.gained, hfold.valid⟩

/-- An analysis has read the file, under a path with a backslash, into the place of another
path. -/
structure Strays (w : World) (visited : List Path) (source : SourceFile) : Prop where
  visited : source.path ∈ visited
  backslash : ¬source.path.IsPlain
  read : w.files.read source.path = .ok source.text

theorem read_or_strays {w : World} {visited : List Path} {p : Path} {source : SourceFile}
    (hp : p.IsPlain) (hnormal : p.normalize = p)
    (h : Loaded w .sensitive visited (PathCase.sensitive.key p) source) :
    w.files.read p = .ok source.text ∨ Strays w visited source := by
  by_cases hpath : source.path.IsPlain
  · have he := Path.eq_of_key hp hpath hnormal h.normal h.key
    exact Or.inl (he ▸ h.read)
  · exact Or.inr ⟨h.visited, hpath, h.read⟩

/-- Changes bring an instance in line with the file system, except where an analysis among
them has put a file whose path has a backslash in the place of a changed one. -/
theorem filesChanged_in_line (s : Surroundings) {i : Instance} (halone : i.checker = none)
    {options : Json.Object} {ops : List Compilation.Operation}
    (hmade : i.compilation = ((Compilation.make options .sensitive).perform ops).1)
    {changed : List Path} (hplain : ∀ p ∈ changed, p.IsPlain) :
    let o := (filesChanged s changed).run i
    let c := i.compilation
    let c' := o.state.compilation
    let visited := c.visitedByAll s.world (changed.map Path.normalize)
    o.result = .ok () ∧
    (∀ p ∈ changed, ∀ source, c'.get? p = some source →
      s.world.files.read p.normalize = .ok source.text ∨ Strays s.world visited source) ∧
    (∀ p ∈ changed, c.has p = true → (c'.has p = true ↔
      (∃ text, s.world.files.read p.normalize = .ok text) ∨
        ∃ source, c'.get? p = some source ∧ Strays s.world visited source)) ∧
    (∀ q source, c.files.key q ∉ changed.map c.files.key → c.get? q = some source →
      c'.get? q = some source) ∧
    (∀ q source source', c.get? q = some source → c'.get? q = some source' →
      source.version < source'.version → source'.text ≠ source.text) ∧
    ∀ p ∈ changed, c'.isValid p = true → c.files.key p ∈ visited.map c.files.key := by
  intro o c c' visited
  have htidy : i.compilation.Tidy :=
    hmade ▸ (Compilation.tidy_make options .sensitive).perform ops
  have hcase : c.files.case = .sensitive :=
    (congrArg (·.files.case) hmade).trans (Compilation.case_perform _ ops)
  have h : Refreshes s.world (changed.map Path.normalize) visited c c' :=
    refreshes_filesChanged s halone htidy hcase hplain
  have hkeys : (changed.map Path.normalize).map c.files.key = changed.map c.files.key := by
    rw [List.map_map]
    exact List.map_congr_left fun q _ ↦ c.files.case.key_normalize q
  have htext : ∀ p ∈ changed, ∀ source, c'.get? p = some source →
      s.world.files.read p.normalize = .ok source.text ∨ Strays s.world visited source := by
    intro p hp source hs
    have hm := List.mem_map_of_mem (f := Path.normalize) hp
    rw [← Compilation.get?_normalize] at hs
    have hloaded (hl : Loaded s.world c.files.case visited (c.files.key p.normalize) source) :
        s.world.files.read p.normalize = .ok source.text ∨ Strays s.world visited source := by
      rw [FileStore.key, hcase] at hl
      exact read_or_strays (hplain p hp).normalize p.normalize_normalize hl
    exact (h.in_line hm hs).elim Or.inl hloaded
  refine ⟨(run_filesChanged_here s changed halone).1, htext, fun p hp hknown ↦ ⟨?_, ?_⟩, ?_, ?_, ?_⟩
  · intro hstored
    rw [Compilation.has_eq_isSome_get?] at hstored
    obtain ⟨source, hs⟩ := Option.isSome_iff_exists.1 hstored
    exact (htext p hp source hs).imp (fun hread ↦ ⟨_, hread⟩) fun hstray ↦ ⟨source, hs, hstray⟩
  · rw [Compilation.has_eq_isSome_get?, Option.isSome_iff_exists]
    rintro (⟨text, hread⟩ | ⟨source, hs, -⟩)
    · rw [Compilation.has_eq_isSome_get?] at hknown
      obtain ⟨source, hs⟩ := Option.isSome_iff_exists.1 hknown
      rw [← Compilation.get?_normalize] at hs
      have hrenewed := h.renewed _ (List.mem_map_of_mem hp) source text hs hread
      exact ⟨_, (c'.get?_normalize p).symm.trans hrenewed⟩
    · exact ⟨source, hs⟩
  · intro q source hq hs
    rw [← hkeys] at hq
    exact h.others q source hq hs
  · intro q source source' hs hs' hlt
    exact h.differs hs hs' hlt
  · intro p hp hv
    refine (h.valid p hv).resolve_left fun hn ↦ hn.2 ?_
    rw [hkeys]
    exact List.mem_map_of_mem hp

end Instance

def MemoryFiles.backslashed : MemoryFiles :=
  ⟨[(⟨"/m.ts"⟩, "/a\\b.ts"), (⟨"/a\\b.ts"⟩, "")]⟩

namespace Compilation

def backslashedStart : Compilation := ((make [] .sensitive).perform [.add ⟨"/m.ts"⟩ ""]).1

def backslashedRead : Compilation :=
  ((((backslashedStart.invalidate ⟨"/a/b.ts"⟩).invalidate ⟨"/m.ts"⟩).update ⟨"/m.ts"⟩
    "/a\\b.ts" true).2)

theorem get?_check_backslashed :
    ((check (.importing .backslashed) ⟨"/m.ts"⟩).run backslashedRead).state.get? ⟨"/a/b.ts"⟩ =
      some ⟨⟨"/a\\b.ts"⟩, "", 0⟩ := by
  have hended : (Walk.ended? (.importing .backslashed) backslashedRead.options 3
      (backslashedRead.walk ⟨"/m.ts"⟩)).map (fun k ↦
        (backslashedRead.withWalk k).get? ⟨"/a/b.ts"⟩) = some (some ⟨⟨"/a\\b.ts"⟩, "", 0⟩) := by
    decide +kernel
  obtain ⟨k, hk, hget⟩ := Option.map_eq_some_iff.1 hended
  rw [(check_of_ended? hk).2]
  exact hget

theorem get?_backslashed :
    (([⟨"/a/b.ts"⟩, ⟨"/m.ts"⟩] : List Path).foldl (fun c p ↦
      ((refresh (.importing .backslashed) p.normalize).run c).state) backslashedStart).get?
        ⟨"/a/b.ts"⟩ = some ⟨⟨"/a\\b.ts"⟩, "", 0⟩ := by
  have hnormal : (⟨"/a/b.ts"⟩ : Path).normalize = ⟨"/a/b.ts"⟩ := by decide +kernel
  have hnormal' : (⟨"/m.ts"⟩ : Path).normalize = ⟨"/m.ts"⟩ := by decide +kernel
  have hnew : backslashedStart.has ⟨"/a/b.ts"⟩ = false := by decide +kernel
  have hold : (backslashedStart.invalidate ⟨"/a/b.ts"⟩).has ⟨"/m.ts"⟩ = true := by decide +kernel
  have hread : (World.importing .backslashed).files.read ⟨"/m.ts"⟩ = .ok "/a\\b.ts" := by
    rw [World.read_importing]
    decide +kernel
  have hstored : (((backslashedStart.invalidate ⟨"/a/b.ts"⟩).invalidate ⟨"/m.ts"⟩).update
      ⟨"/m.ts"⟩ "/a\\b.ts" true).1 = true := by decide +kernel
  have hfirst : ((refresh (.importing .backslashed) ⟨"/a/b.ts"⟩).run backslashedStart).state =
      backslashedStart.invalidate ⟨"/a/b.ts"⟩ := by
    rw [(run_refresh _ _ _).2, hnew]
    rfl
  have hsecond : ((refresh (.importing .backslashed) ⟨"/m.ts"⟩).run
      (backslashedStart.invalidate ⟨"/a/b.ts"⟩)).state =
        ((check (.importing .backslashed) ⟨"/m.ts"⟩).run backslashedRead).state := by
    rw [(run_refresh _ _ _).2, hold, if_pos rfl, hread]
    exact if_pos hstored
  rw [List.foldl_cons, List.foldl_cons, List.foldl_nil, hnormal, hnormal', hfirst, hsecond]
  exact get?_check_backslashed

end Compilation

namespace Instance

theorem get?_filesChanged_backslashed (s : Surroundings) (hs : s.world = .importing .backslashed) :
    ((filesChanged s [⟨"/a/b.ts"⟩, ⟨"/m.ts"⟩]).run
      (.plain Compilation.backslashedStart)).state.compilation.get? ⟨"/a/b.ts"⟩ =
        some ⟨⟨"/a\\b.ts"⟩, "", 0⟩ := by
  obtain ⟨-, hleft⟩ := run_filesChanged_here (i := .plain Compilation.backslashedStart) s
    [⟨"/a/b.ts"⟩, ⟨"/m.ts"⟩] rfl
  rw [hs] at hleft
  rcases hleft with hleft | hleft
  · exact (congrArg (Compilation.get? · ⟨"/a/b.ts"⟩) hleft).trans Compilation.get?_backslashed
  · exact (congrArg (Compilation.get? · ⟨"/a/b.ts"⟩) hleft).trans Compilation.get?_backslashed

theorem read_backslashed (text : String) :
    (World.importing .backslashed).files.read (Path.normalize ⟨"/a/b.ts"⟩) ≠ .ok text := by
  intro hread
  have hnone : MemoryFiles.backslashed.find? (Path.normalize ⟨"/a/b.ts"⟩) = none := by
    decide +kernel
  cases hnone.symm.trans (World.read_importing.1 hread)

/-- A changed file that is not there gets the text of the other one. Paths that are no text can have
one key without a backslash. -/
theorem filesChanged_out_of_line :
    let s : Surroundings := { Surroundings.plain with world := .importing .backslashed }
    let i : Instance := .plain Compilation.backslashedStart
    let changed : List Path := [⟨"/a/b.ts"⟩, ⟨"/m.ts"⟩]
    let c' := ((filesChanged s changed).run i).state.compilation
    (∀ p ∈ changed, p.IsPlain) ∧ ⟨"/a/b.ts"⟩ ∈ changed ∧
      (∃ source, c'.get? ⟨"/a/b.ts"⟩ = some source ∧
        ∀ text, s.world.files.read (Path.normalize ⟨"/a/b.ts"⟩) ≠ .ok text) ∧
      RawPath.Collide (.stray 0xFE) (.stray 0xFF) := by
  intro s i changed c'
  exact ⟨by decide, List.mem_cons_self, ⟨_, get?_filesChanged_backslashed s rfl, read_backslashed⟩,
    RawPath.collide_stray⟩

/-- The file whose path has a backslash has strayed to the place of the changed one. -/
theorem filesChanged_in_line_backslashed :
    let s : Surroundings := { Surroundings.plain with world := .importing .backslashed }
    let i : Instance := .plain Compilation.backslashedStart
    let changed : List Path := [⟨"/a/b.ts"⟩, ⟨"/m.ts"⟩]
    let visited := i.compilation.visitedByAll s.world (changed.map Path.normalize)
    i.checker = none ∧
      i.compilation = ((Compilation.make [] .sensitive).perform [.add ⟨"/m.ts"⟩ ""]).1 ∧
      (∀ p ∈ changed, p.IsPlain) ∧ Strays s.world visited ⟨⟨"/a\\b.ts"⟩, "", 0⟩ := by
  intro s i changed visited
  have hplain : ∀ p ∈ changed, p.IsPlain := by decide
  have hmade : i.compilation = ((Compilation.make [] .sensitive).perform [.add ⟨"/m.ts"⟩ ""]).1 :=
    rfl
  obtain ⟨-, htexts, -⟩ := filesChanged_in_line s rfl hmade hplain
  have hstray := htexts ⟨"/a/b.ts"⟩ List.mem_cons_self _ (get?_filesChanged_backslashed s rfl)
  exact ⟨rfl, hmade, hplain, hstray.resolve_left (read_backslashed "")⟩

end Instance

end TypedLoader
