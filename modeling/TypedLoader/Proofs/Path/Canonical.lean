import TypedLoader.Proofs.Path.Join
import TypedLoader.Proofs.Path.Order
import TypedLoader.Proofs.Path.Plain

namespace TypedLoader.Path

variable {p p' q : Path}

theorem components_ofNames {names : List String} (h : ∀ s ∈ names, IsName s) :
    (ofNames true names).components = .root :: names.map .name := by
  rw [components, isAbsolute_ofNames h, if_pos rfl, bodyComponents_ofNames h]

theorem components_normalize (hp : p.isAbsolute = true) :
    p.normalize.components = .root :: p.names.map .name := by
  rw [normalize, hp, components_ofNames fun _ hs ↦ isName_of_mem_names hs]

theorem not_step_of_mem_segments {s : List Char} (hs : s ∈ p.normalize.segments) :
    s ≠ ['.'] ∧ s ≠ ['.', '.'] := by
  have hnames : ∀ name ∈ p.names, IsName name := fun _ h ↦ isName_of_mem_names h
  by_cases hnone : p.names = []
  · rw [segments, normalize, drop_lead_ofNames hnames, hnone] at hs
    obtain rfl := List.mem_singleton.1 hs
    exact ⟨(List.cons_ne_nil _ _).symm, (List.cons_ne_nil _ _).symm⟩
  · rw [normalize, segments_ofNames hnames hnone] at hs
    obtain ⟨name, hname, rfl⟩ := List.mem_map.1 hs
    exact ⟨(hnames name hname).ne_here, (hnames name hname).ne_up⟩

theorem walk_up (names : List String) (n : Nat) :
    walk names (List.replicate n .up) = names.drop n := by
  induction n generalizing names with
  | zero => rfl
  | succ n ih => rw [List.replicate_succ, walk, ih, List.drop_tail]

theorem bodyComponents_of_up {n : Nat} (h : q.components = List.replicate n .up) :
    q.isAbsolute = false ∧ q.bodyComponents = List.replicate n .up := by
  have hlead (c : Component) (cs : List Component) (hc : c ≠ .up) :
      c :: cs ≠ List.replicate n .up := by
    intro he
    exact hc (List.eq_of_mem_replicate (he ▸ List.mem_cons_self))
  rw [components] at h
  split at h
  · exact absurd h (hlead _ _ (by decide))
  · rename_i habsolute
    split at h
    · exact absurd h (hlead _ _ (by decide))
    · exact ⟨eq_false_of_ne_true habsolute, h⟩

/-- Every step to the parent drops one name, as long as there is one. -/
theorem names_join_up (p : Path) {n : Nat} (h : q.components = List.replicate n .up) :
    (p.join q).names = p.names.take (p.names.length - n) := by
  obtain ⟨hq, hbody⟩ := bodyComponents_of_up h
  rw [names_join p hq, hbody, walk_up, List.drop_reverse, List.reverse_reverse]

/-- The normal form of an absolute path starts at the root and holds no steps; it is its own
normal form, and what is joined to a path may be joined to its normal form instead. However many
steps to the parent are joined, they end at the root. A path and its normal form have one key,
and where case counts, paths without backslashes have one key just if they have one normal
form. -/
theorem normalize_canonical (hp : p.isAbsolute = true) (hq : q.isAbsolute = false) :
    (p.normalize.isAbsolute = true ∧ (∀ s ∈ p.normalize.segments, s ≠ ['.'] ∧ s ≠ ['.', '.']) ∧
      ∀ c ∈ p.normalize.components, c ≠ .here ∧ c ≠ .up) ∧
    p.normalize.normalize = p.normalize ∧
    ((p.join q).isAbsolute = true ∧ (p.join q).normalize = (p.normalize.join q).normalize ∧
      ∀ n, q.components = List.replicate n .up →
        (p.join q).normalize = ofNames true (p.names.take (p.names.length - n))) ∧
    (∀ case : PathCase, case.key p = case.key p.normalize) ∧
    (p.IsPlain → p'.IsPlain →
      (PathCase.sensitive.key p = PathCase.sensitive.key p' ↔ p.normalize = p'.normalize) ∧
      (p.normalize = p'.normalize ↔ p.normalize.compare p'.normalize = .eq)) := by
  have hjoin : (p.join q).isAbsolute = true := (isAbsolute_join hq).trans hp
  refine ⟨⟨?_, fun s hs ↦ not_step_of_mem_segments hs, ?_⟩, normalize_normalize p,
    ⟨hjoin, normalize_join p q, ?_⟩, fun case ↦ (case.key_normalize p).symm, ?_⟩
  · rw [isAbsolute_normalize, hp]
  · intro c hc
    rw [components_normalize hp] at hc
    rcases List.mem_cons.1 hc with rfl | hc
    · exact ⟨nofun, nofun⟩
    · obtain ⟨name, -, rfl⟩ := List.mem_map.1 hc
      exact ⟨nofun, nofun⟩
  · intro n hn
    rw [normalize, hjoin, names_join_up p hn]
  · intro hplain hplain'
    refine ⟨hplain.key_eq_key_iff hplain', fun h ↦ ?_, fun h ↦ ?_⟩
    · rw [h]
      exact Std.ReflCmp.compare_self
    · have hnormal := normalize_eq_of_compare h
      rwa [normalize_normalize, normalize_normalize] at hnormal

end TypedLoader.Path
