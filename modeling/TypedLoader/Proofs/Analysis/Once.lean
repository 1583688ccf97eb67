import Mathlib.Data.List.Nodup
import TypedLoader.Proofs.Analysis.Importing

namespace TypedLoader

def Call.scanned? : Call → Option String
  | .scan text => some text
  | _ => none

def Call.fileRead? : Call → Option Path
  | .read file => some file
  | _ => none

namespace Analysis.Walk

variable {w : World} {options : Json.Object} {c k k' : Walk} {file : Path} {queue : List Path}
  {calls calls' : List Call} {r : Except CompileError Unit}

/-- The oldest file of the queue is dropped, or it is visited with success. -/
inductive Turn (w : World) (options : Json.Object) : Walk → List Call → Walk → Prop
  | skip {k : Walk} {file : Path} {queue : List Path} (hq : k.queue = file :: queue)
      (hv : isValid k.marks (k.files.key file) = true) : Turn w options k [] { k with queue }
  | visit {k k' : Walk} {file : Path} {queue : List Path} {calls : List Call}
      (hq : k.queue = file :: queue) (hv : isValid k.marks (k.files.key file) = false)
      (h : visit w options (k.enter file queue) file = ⟨.ok (), k', calls⟩) :
      Turn w options k calls k'

inductive Turns (w : World) (options : Json.Object) : Walk → List Call → Walk → Prop
  | refl (k : Walk) : Turns w options k [] k
  | head {k k₁ k' : Walk} {calls calls' : List Call} (h : Turn w options k calls k₁)
      (hs : Turns w options k₁ calls' k') : Turns w options k (calls ++ calls') k'

/-- There are no more turns: the queue is empty, or the visit of the next file fails. -/
inductive Ends (w : World) (options : Json.Object) :
    Walk → Except CompileError Unit → List Call → Walk → Prop
  | done {k : Walk} (hq : k.queue = []) : Ends w options k (.ok ()) [] k
  | failed {k k' : Walk} {file : Path} {queue : List Path} {e : CompileError}
      {calls : List Call} (hq : k.queue = file :: queue)
      (hv : isValid k.marks (k.files.key file) = false)
      (h : visit w options (k.enter file queue) file = ⟨.error e, k', calls⟩) :
      Ends w options k (.error e) calls k'.abandon

theorem wellFounded_turn (w : World) (options : Json.Object) :
    WellFounded fun k' k ↦ ∃ calls, Turn w options k calls k' := by
  refine Subrelation.wf (fun {k' k} h ↦ ?_)
    (InvImage.wf (fun k : Walk ↦ (k.toVisit w, k.queue.length)) WellFoundedRelation.wf)
  obtain ⟨calls, h⟩ := h
  cases h with
  | skip hq hv =>
    rw [InvImage, hq]
    exact Prod.Lex.right _ (Nat.lt_add_one _)
  -- only files that are stored or can be read are visited, and those are valid then
  | visit hq hv h => exact Prod.Lex.left _ _ (toVisit_lt hv h)

theorem run_turns (w : World) (options : Json.Object) (k : Walk) :
    let o := run w options k
    ∃ k₁ calls calls', Turns w options k calls k₁ ∧
      Ends w options k₁ o.result calls' o.state ∧ o.calls = calls ++ calls' := by
  fun_induction run w options k with
  | case1 k hq => exact ⟨k, [], [], .refl k, .done hq, rfl⟩
  | case2 k file queue hq hv _ ih =>
    obtain ⟨k₁, calls, calls', hs, hend, he⟩ := ih
    exact ⟨k₁, calls, calls', .head (.skip hq hv) hs, hend, he⟩
  | case3 k file queue hq hv e k' calls h =>
    exact ⟨k, [], calls, .refl k, .failed hq (by simpa using hv) h, rfl⟩
  | case4 k file queue hq hv next first h _ ih =>
    obtain ⟨k₁, calls, calls', hs, hend, he⟩ := ih
    refine ⟨k₁, first ++ calls, calls', .head (.visit hq (by simpa using hv) h) hs, hend, ?_⟩
    rw [List.append_assoc, ← he]
    rfl

theorem visit_files (h : visit w options k file = ⟨r, k', calls⟩) :
    k'.marks = k.marks ∧ k'.analyzed = k.analyzed ∧
      (k'.files = k.files ∨ ∃ text, k.files.get? file = none ∧ w.files.read file = .ok text ∧
        k'.files = k.files.add file text) := by
  rcases visits_of_visit h with rfl | ⟨text, new, added, hvis⟩
  · exact ⟨rfl, rfl, Or.inl rfl⟩
  · refine ⟨hvis.marks, hvis.analyzed, ?_⟩
    generalize k'.files = files, hvis.loads = hloads
    cases hloads with
    | stored _ => exact Or.inl rfl
    | read hn hr => exact Or.inr ⟨text, hn, hr, rfl⟩

theorem visit_stored (h : visit w options k file = ⟨r, k', calls⟩) (key : String) :
    k'.files.files[key]? = k.files.files[key]? ∨
      k.files.key file = key ∧ k.files.files[key]? = none ∧ ∃ text, w.files.read file = .ok text ∧
        k'.files.files[key]? = some ⟨file.normalize, text, 0⟩ := by
  rcases (visit_files h).2.2 with hf | ⟨text, hnone, hread, hf⟩
  · exact Or.inl (congrArg (·.files[key]?) hf)
  · have hput := FileStore.getElem?_put k.files file text 0 key
    have hadd : k'.files.files[key]? = (k.files.put file text 0).files[key]? :=
      congrArg (·.files[key]?) hf
    by_cases hk : k.files.key file = key
    · rw [if_pos hk] at hput
      exact Or.inr ⟨hk, hk ▸ hnone, text, hread, hadd.trans hput⟩
    · rw [if_neg hk] at hput
      exact Or.inl (hadd.trans hput)

theorem load_calls {files files' : FileStore} {text : String}
    (h : load w files file = ⟨.ok text, files', calls⟩) :
    Loads w files file text files' ∧ calls = if files.has file then [] else [.read file] := by
  have hhas : files.has file = (files.get? file).isSome :=
    Std.ExtTreeMap.contains_eq_isSome_getElem?
  rw [load] at h
  cases hg : files.get? file with
  | some source =>
    rw [hg] at h
    cases h
    exact ⟨.stored hg, by rw [hhas, hg]; rfl⟩
  | none =>
    rw [hg] at h
    dsimp only at h
    cases hr : w.files.read file with
    | error cause =>
      rw [hr] at h
      cases h
    | ok read =>
      rw [hr] at h
      cases h
      exact ⟨.read hg hr, by rw [hhas, hg]; rfl⟩

/-- A visit that succeeds scans one text, after it has read its file if that was not stored. -/
theorem visit_calls (h : visit w options k file = ⟨.ok (), k', calls⟩) :
    ∃ text, Loads w k.files file text k'.files ∧ calls.filterMap Call.scanned? = [text] ∧
      calls.filterMap Call.fileRead? = (if k.files.has file then [] else [file]) ∧
      k'.changed = (k.changed || !k.files.has file) := by
  rw [visit] at h
  rcases hl : load w k.files file with ⟨e | text, files, loading⟩
  · rw [hl] at h
    cases h
  · rw [hl] at h
    obtain ⟨hloads, hloading⟩ := load_calls hl
    have hlinks (s : Site) (refs : References) (l : Links) :
        ∀ c ∈ ((Links.linkAll s refs).run l).calls, c.scanned? = none ∧ c.fileRead? = none :=
      calls_linkAll (fun _ _ ↦ ⟨rfl, rfl⟩) s refs l
    obtain ⟨-, rfl, rfl⟩ := Outcome.mk.inj h
    refine ⟨text, hloads, ?_, ?_, rfl⟩
    · rw [List.filterMap_append, List.filterMap_append,
        List.filterMap_eq_nil_iff.2 fun c hc ↦ (hlinks _ _ _ c hc).1, hloading]
      split <;> rfl
    · rw [List.filterMap_append, List.filterMap_append,
        List.filterMap_eq_nil_iff.2 fun c hc ↦ (hlinks _ _ _ c hc).2, hloading]
      split <;> rfl

/-- What has become of the files since a walk began at `c`. Visited files are valid now and were
not before, stored files are as they were, and those that have been stored were read. -/
structure Since (w : World) (c k : Walk) : Prop where
  case : k.files.case = c.files.case
  nodup : (k.analyzed.map c.files.key).Nodup
  fresh : ∀ p ∈ k.analyzed, isValid c.marks (c.files.key p) = false
  marks : ∀ key, k.marks[key]? =
    if key ∈ k.analyzed.map c.files.key then some .valid else c.marks[key]?
  kept : ∀ (key : String) (source : SourceFile),
    c.files.files[key]? = some source → k.files.files[key]? = some source
  gained : ∀ (key : String) (source : SourceFile), k.files.files[key]? = some source →
    c.files.files[key]? = some source ∨ ∃ p ∈ k.analyzed, c.files.key p = key ∧
      ∃ text, w.files.read p = .ok text ∧ source = ⟨p.normalize, text, 0⟩

theorem since_start (ha : c.analyzed = []) : Since w c c where
  case := rfl
  nodup := by simp [ha]
  fresh := by simp [ha]
  marks := by simp [ha]
  kept _ _ h := h
  gained _ _ h := Or.inl h

namespace Since

theorem key (h : Since w c k) (p : Path) : k.files.key p = c.files.key p :=
  FileStore.key_eq_key_of_case h.case p

theorem isValid_iff (h : Since w c k) (key : String) : isValid k.marks key = true ↔
    key ∈ k.analyzed.map c.files.key ∨ isValid c.marks key = true := by
  rw [isValid, isValid, h.marks]
  split
  · rename_i hm
    exact iff_of_true rfl (Or.inl hm)
  · rename_i hm
    exact (or_iff_right hm).symm

theorem new (h : Since w c k) (hv : isValid k.marks (k.files.key file) = false) :
    c.files.key file ∉ k.analyzed.map c.files.key ∧
      isValid c.marks (c.files.key file) = false := by
  have hnot := Bool.eq_false_iff.1 hv
  rw [h.key, Ne, h.isValid_iff, not_or] at hnot
  exact ⟨hnot.1, Bool.eq_false_iff.2 hnot.2⟩

theorem has_eq (h : Since w c k) (hnew : c.files.key file ∉ k.analyzed.map c.files.key) :
    k.files.has file = c.files.has file := by
  rw [Bool.eq_iff_iff, FileStore.has, FileStore.has, h.key, Std.ExtTreeMap.contains_iff_mem,
    Std.ExtTreeMap.contains_iff_mem, Std.ExtTreeMap.mem_iff_isSome_getElem?,
    Std.ExtTreeMap.mem_iff_isSome_getElem?, Option.isSome_iff_exists, Option.isSome_iff_exists]
  constructor
  · rintro ⟨source, hs⟩
    rcases h.gained _ source hs with hc | ⟨p, hp, hkey, -⟩
    · exact ⟨source, hc⟩
    · exact absurd (hkey ▸ List.mem_map_of_mem hp) hnew
  · rintro ⟨source, hs⟩
    exact ⟨source, h.kept _ source hs⟩

theorem visit (h : Since w c k) (hv : isValid k.marks (k.files.key file) = false)
    (hvisit : visit w options (k.enter file queue) file = ⟨r, k', calls⟩) : Since w c k' := by
  obtain ⟨hm, ha, hf⟩ := visit_files hvisit
  obtain ⟨hnew, hfresh⟩ := h.new hv
  have ha : k'.analyzed = k.analyzed ++ [file] := ha
  constructor
  case case =>
    rcases hf with hf | ⟨text, -, -, hf⟩
    · exact (congrArg FileStore.case hf).trans h.case
    · exact (congrArg FileStore.case hf).trans h.case
  case nodup =>
    rw [ha, List.map_append, List.map_singleton, ← List.concat_eq_append]
    exact List.Nodup.concat hnew h.nodup
  case fresh =>
    rw [ha, List.forall_mem_append, List.forall_mem_singleton]
    exact ⟨h.fresh, hfresh⟩
  case marks =>
    intro key
    have hmark : k'.marks[key]? = (k.marks.insert (k.files.key file) .valid)[key]? :=
      congrArg (·[key]?) hm
    rw [hmark, Std.ExtTreeMap.getElem?_insert, h.marks, ha, h.key, List.map_append,
      List.map_singleton]
    simp only [Std.LawfulEqCmp.compare_eq_iff_eq, List.mem_append, List.mem_singleton]
    by_cases hk : c.files.key file = key
    · rw [if_pos hk, if_pos (Or.inr hk.symm)]
    · rw [if_neg hk]
      simp only [Ne.symm hk, or_false]
  case kept =>
    intro key source hs
    have hk := h.kept key source hs
    rcases visit_stored hvisit key with he | ⟨-, hnone, -⟩
    · exact he.trans hk
    · cases hnone.symm.trans hk
  case gained =>
    intro key source hs
    rw [ha]
    rcases visit_stored hvisit key with he | ⟨hkey, -, text, hread, hadd⟩
    · refine (h.gained key source (he.symm.trans hs)).imp_right fun ⟨p, hp, hrest⟩ ↦ ?_
      exact ⟨p, List.mem_append_left _ hp, hrest⟩
    · exact Or.inr ⟨file, List.mem_append_right _ (List.mem_singleton_self file),
        (h.key file).symm.trans hkey, text, hread, Option.some.inj (hs.symm.trans hadd)⟩

theorem turns (h : Since w c k) (ht : Turns w options k calls k') : Since w c k' := by
  induction ht with
  | refl => exact h
  | head ht _ ih =>
    cases ht with
    | skip hq hv => exact ih ⟨h.case, h.nodup, h.fresh, h.marks, h.kept, h.gained⟩
    | visit hq hv hvisit => exact ih (h.visit hv hvisit)

end Since

/-- What a walk has called since it began at `c`: it has scanned the text of each visited file,
and read those files that were not stored. -/
structure Once (w : World) (c : Walk) (calls : List Call) (k : Walk) : Prop
    extends Since w c k where
  scanned : (calls.filterMap Call.scanned?).map some =
    k.analyzed.map fun p ↦ (k.files.get? p).map (·.text)
  read : calls.filterMap Call.fileRead? = k.analyzed.filter (!c.files.has ·)
  changed : k.changed = true ↔ ∃ key ∈ k.files.files, key ∉ c.files.files

theorem once_start (ha : c.analyzed = []) (hc : c.changed = false) : Once w c [] c where
  toSince := since_start ha
  scanned := by simp [ha]
  read := by simp [ha]
  changed := by simp [hc]

namespace Once

theorem visit (h : Once w c calls k) (hv : isValid k.marks (k.files.key file) = false)
    (hvisit : visit w options (k.enter file queue) file = ⟨.ok (), k', calls'⟩) :
    Once w c (calls ++ calls') k' := by
  obtain ⟨-, ha, -⟩ := visit_files hvisit
  have ha : k'.analyzed = k.analyzed ++ [file] := ha
  obtain ⟨hnew, -⟩ := h.new hv
  obtain ⟨text, hloads, hscanned, hread, hchanged⟩ := visit_calls hvisit
  have hloads : Loads w k.files file text k'.files := hloads
  have hread : calls'.filterMap Call.fileRead? = if k.files.has file then [] else [file] := hread
  have hchanged : k'.changed = (k.changed || !k.files.has file) := hchanged
  have hhas := h.has_eq hnew
  obtain ⟨source, hget, rfl⟩ := hloads.get?
  constructor
  case toSince => exact h.toSince.visit hv hvisit
  case scanned =>
    rw [List.filterMap_append, List.map_append, hscanned, ha, List.map_append, h.scanned,
      List.map_singleton, List.map_singleton, hget]
    refine congrArg (· ++ [some source.text]) (List.map_congr_left fun p hp ↦ ?_)
    rw [hloads.get?_of_ne]
    rw [h.key, h.key]
    exact fun hk ↦ hnew (hk ▸ List.mem_map_of_mem hp)
  case read =>
    rw [List.filterMap_append, h.read, hread, ha, List.filter_append, hhas]
    cases hc : c.files.has file with
    | true => simp [hc]
    | false => simp [hc]
  case changed =>
    have hnone : c.files.has file = false ↔ c.files.key file ∉ c.files.files := by
      rw [← Bool.not_eq_true, FileStore.has, Std.ExtTreeMap.contains_iff_mem]
    rw [hchanged, Bool.or_eq_true, h.changed, hhas, Bool.not_eq_true', hnone]
    constructor
    · rintro (⟨key, hk, hn⟩ | hn)
      · exact ⟨key, (hloads.mem_iff key).2 (Or.inr hk), hn⟩
      · exact ⟨c.files.key file, (hloads.mem_iff _).2 (Or.inl (h.key file)), hn⟩
    · rintro ⟨key, hk, hn⟩
      rcases (hloads.mem_iff key).1 hk with rfl | hk
      · exact Or.inr (h.key file ▸ hn)
      · exact Or.inl ⟨key, hk, hn⟩

theorem turn (h : Once w c calls k) (ht : Turn w options k calls' k') :
    Once w c (calls ++ calls') k' := by
  cases ht with
  | skip hq hv =>
    rw [List.append_nil]
    exact ⟨⟨h.case, h.nodup, h.fresh, h.marks, h.kept, h.gained⟩, h.scanned, h.read, h.changed⟩
  | visit hq hv hvisit => exact h.visit hv hvisit

theorem turns (h : Once w c calls k) (ht : Turns w options k calls' k') :
    Once w c (calls ++ calls') k' := by
  induction ht generalizing calls with
  | refl =>
    rw [List.append_nil]
    exact h
  | head ht _ ih =>
    rw [← List.append_assoc]
    exact ih (h.turn ht)

end Once

end Analysis.Walk

namespace Compilation

open Analysis (Walk)

/-- What an analysis did, as told from its outcome. The files it lists, and no others, have
become valid, each of them once. Their texts have been scanned in that order, and those that
were not stored have been read; what was stored is as it was. -/
structure AnalysedOnce (c : Compilation) (analysed : Analysed) (c' : Compilation)
    (calls : List Call) : Prop where
  nodup : (analysed.files.map c.files.key).Nodup
  valid : ∀ key, key ∈ analysed.files.map c.files.key ↔
    c.marks[key]? ≠ some .valid ∧ c'.marks[key]? = some .valid
  marks : ∀ key, key ∉ analysed.files.map c.files.key → c'.marks[key]? = c.marks[key]?
  scanned : (calls.filterMap Call.scanned?).map some =
    analysed.files.map fun q ↦ (c'.get? q).map (·.text)
  read : calls.filterMap Call.fileRead? = analysed.files.filter (!c.has ·)
  stored : ∀ q source, c.get? q = some source → c'.get? q = some source
  changed : analysed.changed = true ↔ ∃ key ∈ c'.files.files, key ∉ c.files.files

/-- An analysis ends, whatever cycles there are: it takes turns until its queue is empty or a
visit fails, and there is no endless row of turns. If it succeeds, it has analysed each file
once. -/
theorem check_analyses_once (w : World) (c : Compilation) (p : Path) :
    (WellFounded fun k' k ↦ ∃ calls, Walk.Turn w c.options k calls k') ∧
      (∃ k calls r calls' k', Walk.Turns w c.options (c.walk p) calls k ∧
        Walk.Ends w c.options k r calls' k' ∧
        (check w p).run c =
          ⟨r.map fun _ ↦ ⟨k'.changed, k'.analyzed⟩, c.withWalk k', calls ++ calls'⟩) ∧
      ∀ analysed, ((check w p).run c).result = .ok analysed →
        AnalysedOnce c analysed ((check w p).run c).state ((check w p).run c).calls := by
  obtain ⟨k, calls, calls', hturns, hend, hcalls⟩ := Walk.run_turns w c.options (c.walk p)
  have hrun := run_check w p c
  dsimp only at hrun
  rw [hcalls] at hrun
  generalize (Walk.run w c.options (c.walk p)).result = r,
    (Walk.run w c.options (c.walk p)).state = k' at hrun hend
  refine ⟨Walk.wellFounded_turn w c.options, ⟨k, calls, r, calls', k', hturns, hend, hrun⟩, ?_⟩
  intro analysed hok
  rw [hrun] at hok ⊢
  cases hend with
  | failed hq hv h => cases hok
  | done hq =>
    have honce := (Walk.once_start (w := w) (c := c.walk p) rfl rfl).turns hturns
    obtain rfl := Except.ok.inj hok
    rw [List.nil_append] at honce
    rw [List.append_nil]
    have hmarks (key : String) (hn : key ∉ k.analyzed.map c.files.key) :
        k.marks[key]? = c.marks[key]? := (honce.marks key).trans (if_neg hn)
    refine ⟨honce.nodup, fun key ↦ ⟨fun hm ↦ ?_, fun ⟨hnot, hv⟩ ↦ ?_⟩, hmarks, honce.scanned,
      honce.read, fun q source hs ↦ ?_, honce.changed⟩
    · obtain ⟨q, hq, rfl⟩ := List.mem_map.1 hm
      exact ⟨beq_eq_false_iff_ne.1 (honce.fresh q hq), (honce.marks _).trans (if_pos hm)⟩
    · exact by_contra fun hn ↦ hnot ((hmarks key hn).symm.trans hv)
    · exact (congrArg (k.files.files[·]?) (honce.key q)).trans (honce.kept _ source hs)

end Compilation

def MemoryFiles.cyclic : MemoryFiles := ⟨[(⟨"/a.ts"⟩, "/b.ts"), (⟨"/b.ts"⟩, "/a.ts")]⟩

theorem Compilation.check_analyses_once_cyclic :
    let o := (check (.importing .cyclic) ⟨"/a.ts"⟩).run (make [] .sensitive)
    ∃ analysed, o.result = .ok analysed ∧
      AnalysedOnce (make [] .sensitive) analysed o.state o.calls := by
  intro o
  have hsupplied : World.Supplied .cyclic (make [] .sensitive).files :=
    World.supplied_empty .sensitive (by decide +kernel)
  obtain ⟨analysed, hok, -⟩ := check_importing (p := ⟨"/a.ts"⟩) hsupplied (by decide +kernel)
  exact ⟨analysed, hok, (check_analyses_once _ _ _).2.2 analysed hok⟩

end TypedLoader
