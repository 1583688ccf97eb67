import TypedLoader.Proofs.Path.Normal

namespace TypedLoader

def Path.IsPlain (p : Path) : Prop := '\\' ∉ p.chars

instance : DecidablePred Path.IsPlain := fun p ↦ inferInstanceAs (Decidable ('\\' ∉ p.chars))

theorem Path.key_of_isPlain {p : Path} (h : p.IsPlain) (hn : p.normalize = p) :
    PathCase.sensitive.key p = p.text := by
  have hm : (p.text.toList.map fun c ↦ if c = '\\' then '/' else c) = p.text.toList := by
    refine (List.map_congr_left fun c hc ↦ if_neg ?_).trans (List.map_id _)
    rintro rfl
    exact h hc
  rw [PathCase.key, hn, PathCase.fold, hm, String.ofList_toList]

namespace Path

theorem mem_of_mem_names {p : Path} {s : String} (h : s ∈ p.names) {c : Char}
    (hc : c ∈ s.toList) : c ∈ p.chars := by
  obtain ⟨lead, hcomponents, hlead, -⟩ := p.components_eq
  have hbody : .name s ∈ p.bodyComponents := by
    rcases mem_walk (List.mem_reverse.1 h) with h | h
    · cases h
    · rw [hcomponents] at h
      exact (List.mem_append.1 h).resolve_left (hlead s)
  obtain ⟨segment, hm, he⟩ := List.mem_map.1 hbody
  rw [component] at he
  split at he
  · cases he
  · obtain rfl := Component.name.inj he
    rw [String.toList_ofList] at hc
    exact List.mem_of_mem_drop (Text.mem_of_mem_splitWhere (List.mem_filter.1 hm).1 hc).1

theorem mem_chars_normalize {p : Path} {c : Char} (hc : c ∈ p.normalize.chars) :
    c = '/' ∨ c ∈ p.chars := by
  rw [Path.normalize, chars_ofNames, List.mem_append] at hc
  rcases hc with hc | hc
  · split at hc
    · exact Or.inl (List.mem_singleton.1 hc)
    · cases hc
  · rcases Text.mem_intercalate hc with hc | ⟨s, hs, hc⟩
    · exact Or.inl (List.mem_singleton.1 hc)
    · obtain ⟨name, hname, rfl⟩ := List.mem_map.1 hs
      exact Or.inr (mem_of_mem_names hname hc)

theorem IsPlain.normalize {p : Path} (h : p.IsPlain) : p.normalize.IsPlain := by
  intro hc
  rcases mem_chars_normalize hc with hc | hc
  · exact absurd hc (by decide)
  · exact h hc

theorem IsPlain.key_eq_key_iff {p q : Path} (hp : p.IsPlain) (hq : q.IsPlain) :
    PathCase.sensitive.key p = PathCase.sensitive.key q ↔ p.normalize = q.normalize := by
  rw [← PathCase.key_normalize _ p, ← PathCase.key_normalize _ q,
    key_of_isPlain hp.normalize p.normalize_normalize,
    key_of_isPlain hq.normalize q.normalize_normalize]
  exact ⟨congrArg Path.mk, congrArg Path.text⟩

end Path

end TypedLoader
