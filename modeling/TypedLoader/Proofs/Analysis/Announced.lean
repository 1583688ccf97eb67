import TypedLoader.Proofs.Analysis.Walk
import TypedLoader.Proofs.Path.Declared

namespace TypedLoader.Analysis

open Relation (ReflTransGen)

namespace Site

variable {s : Site} {e : Edge}

theorem normalize_edge? {c : Citation} (h : s.edge? c = some e) :
    e.target.normalize = e.target := by
  cases c
  all_goals
    rw [edge?] at h
    split at h
    · obtain rfl := Option.some.inj h
      exact Path.normalize_normalize _
    · cases h

theorem isDeclaration_edgeTo {target : Path} (h : (edgeTo target).kind ≠ .source) :
    target.isDeclaration = true := by
  cases hd : target.isDeclaration with
  | true => rfl
  | false => exact absurd (by rw [edgeTo, hd]; rfl) h

end Site

namespace Walk

variable {w : World} {options : Json.Object} {c k k' : Walk} {file : Path} {queue : List Path}
  {new : List Edge} {added : List Path}

theorem Cited.normalize_target {e : Edge} (h : Cited w options e) :
    e.target.normalize = e.target := by
  obtain ⟨s, -, -, text, citation, -, he⟩ := h
  exact Site.normalize_edge? he

theorem Cited.kind_cases {e : Edge} (h : Cited w options e) (hk : e.kind ≠ .source) :
    e.target.isDeclaration = true ∨ e.kind = .typeReference ∧ ∃ text file,
      ∃ name ∈ (w.compiler.scan text).types, ∃ r,
        w.compiler.resolveTypes name file options = .ok (some r) ∧ e.target = r.file.normalize := by
  obtain ⟨s, rfl, rfl, text, citation, hmem, he⟩ := h
  cases citation with
  | module name =>
    rw [Site.edge?] at he
    split at he
    · obtain rfl := Option.some.inj he
      exact Or.inl (Site.isDeclaration_edgeTo hk)
    · cases he
  | path reference =>
    rw [Site.edge?] at he
    split at he
    · obtain rfl := Option.some.inj he
      exact Or.inl (Site.isDeclaration_edgeTo hk)
    · cases he
  | types name =>
    rw [Site.edge?] at he
    split at he
    · rename_i r hr
      obtain rfl := Option.some.inj he
      have hname : name ∈ (s.world.compiler.scan text).types := by simpa [citations] using hmem
      exact Or.inr ⟨rfl, text, s.file, name, hname, r, hr, rfl⟩
    · cases he

/-- What a walk from `c` has made known is what references lead to, and its paths are in
normal form. -/
structure Announces (w : World) (options : Json.Object) (c k : Walk) : Prop where
  normal : ∀ p ∈ k.analyzed ++ k.queue, p.normalize = p
  known : ∀ key ∈ k.deps.declarations, key ∈ c.deps.declarations ∨
    ∃ e, Cited w options e ∧ e.kind ≠ .source ∧ k.deps.key e.target = key

theorem announces_start (w : World) (options : Json.Object)
    (h : ∀ p ∈ c.analyzed ++ c.queue, p.normalize = p) : Announces w options c c :=
  ⟨h, fun _ hk ↦ Or.inl hk⟩

theorem Announces.skip (h : Announces w options c k) (hq : k.queue = file :: queue) :
    Announces w options c { k with queue } := by
  refine ⟨fun p hp ↦ h.normal p ?_, h.known⟩
  rw [hq]
  rcases List.mem_append.1 hp with hp | hp
  · exact List.mem_append_left _ hp
  · exact List.mem_append_right _ (List.mem_cons_of_mem file hp)

theorem Announces.touch (h : Announces w options c k) (hq : k.queue = file :: queue)
    (ht : Touches k file queue k' new added) (hcited : ∀ e ∈ new, Cited w options e) :
    Announces w options c k' := by
  obtain ⟨s, rfl, hl⟩ := ht.links
  have hkey (p : Path) : k'.deps.key p = k.deps.key p := key_eq_key_of_case ht.deps_case p
  constructor
  case normal =>
    intro p hp
    rw [ht.analyzed, ht.queue_eq] at hp
    have he : k.analyzed ++ [s.file] ++ (queue ++ added) = k.analyzed ++ k.queue ++ added := by
      rw [hq]
      simp
    rw [he] at hp
    rcases List.mem_append.1 hp with hp | hp
    · exact h.normal p hp
    · obtain ⟨e, he, rfl, -⟩ := hl.waiting p hp
      exact (hcited e he).normalize_target
  case known =>
    intro key hk
    rcases (hl.known key).1 hk with hd | ⟨e, he, hkind, hke⟩
    · refine (h.known key hd).imp_right fun ⟨e, hce, hkind, hke⟩ ↦ ⟨e, hce, hkind, ?_⟩
      exact (hkey e.target).trans hke
    · exact Or.inr ⟨e, hcited e he, hkind, (hkey e.target).trans hke⟩

theorem Announces.steps (h : Announces w options c k) (hs : ReflTransGen (Step w options) k k') :
    Announces w options c k' := by
  induction hs with
  | refl => exact h
  | tail _ hs ih =>
    cases hs with
    | skip hq _ => exact ih.skip hq
    | visit hq _ _ hvis => exact ih.touch hq hvis.touches fun e he ↦ hvis.cited_of_mem he

/-- Wherever a walk stops, also at a visit that fails, it has announced what it has made
known. -/
theorem explored (w : World) (options : Json.Object) (hc : c.deps.case = c.files.case)
    (ha : c.analyzed = []) (hn : ∀ p ∈ c.queue, p.normalize = p) :
    From c (explore w options c).state ∧ Announces w options c (explore w options c).state := by
  have hstart : Announces w options c c := announces_start w options (by simpa [ha] using hn)
  obtain ⟨k₁, hsteps, ⟨-, hstate, -⟩ | ⟨file, queue, e, k₂, calls, hq, hv, hvisit, -, hstate⟩⟩ :=
    explore_cases w options c
  all_goals
    have hfrom := (from_start hc ha).steps hsteps
    have hann := hstart.steps hsteps
    rw [hstate]
  · exact ⟨hfrom, hann⟩
  · obtain ⟨new, added, ht, hcited⟩ := touches_of_visit hvisit
    exact ⟨hfrom.touch hq hv ht, hann.touch hq ht hcited⟩

theorem isDeclaration_of_key {d : Dependencies} {p q : Path} (hp : p.normalize = p)
    (h : d.key p = d.key q) : p.isDeclaration = q.normalize.isDeclaration := by
  have hkey : d.case.key p = d.case.key q := h
  rw [← hp, Path.isDeclaration_normalize_key d.case, hkey, Path.isDeclaration_normalize_key d.case]

/-- What a walk has made known and found valid neither before nor afterwards has been visited
by it, or waits. -/
theorem From.announced (hfrom : From c k) {q : Path} (hknown : k.deps.isKnown q = true)
    (hnew : k.deps.key q ∉ c.deps.declarations)
    (hvalid : isValid c.marks (c.files.key q) = false) :
    ∃ p ∈ k.analyzed ++ k.queue, k.deps.key p = k.deps.key q := by
  have hkey (p : Path) : k.deps.key p = k.files.key p := hfrom.deps_key p
  rcases hfrom.known _ (Std.ExtTreeSet.contains_iff_mem.1 hknown) with hd | hv | ⟨p, hp, hpq⟩
  · exact absurd hd hnew
  · rcases (hfrom.valid _).1 hv with hv | ⟨p, hp, hpq⟩
    · rw [hkey, hfrom.key, hvalid] at hv
      cases hv
    · exact ⟨p, List.mem_append_left _ hp, (hkey p).trans hpq⟩
  · exact ⟨p, List.mem_append_right _ hp, (hkey p).trans hpq⟩

/-- What was made known and has not become valid is released just if its name is that of a
declaration file. -/
theorem isKnown_abandon (hfrom : From c k) (hann : Announces w options c k) {q : Path}
    (hknown : k.deps.isKnown q = true) (hnew : k.deps.key q ∉ c.deps.declarations)
    (hvalid : isValid c.marks (c.files.key q) = false) :
    k.abandon.deps.isKnown q = !q.normalize.isDeclaration := by
  have hkey : k.abandon.deps.key q = k.deps.key q := key_eq_key_of_case (abandon_case k) q
  obtain ⟨p, hp, hpq⟩ := hfrom.announced hknown hnew hvalid
  have hmem : k.abandon.deps.isKnown q = true ↔ q.normalize.isDeclaration = false := by
    rw [Dependencies.isKnown, Std.ExtTreeSet.contains_iff_mem, mem_declarations_abandon, hkey]
    constructor
    · rintro ⟨-, hkept⟩
      rw [← isDeclaration_of_key (hann.normal p hp) hpq]
      exact Bool.eq_false_iff.2 fun hd ↦ hkept p hp hd hpq
    · intro hd
      refine ⟨Std.ExtTreeSet.contains_iff_mem.1 hknown, fun p' hp' hd' hpq' ↦ ?_⟩
      rw [isDeclaration_of_key (hann.normal p' hp') hpq', hd] at hd'
      cases hd'
  rw [Bool.eq_iff_iff, hmem, Bool.not_eq_true']

end Walk

end TypedLoader.Analysis
