import TypedLoader.Proofs.Path.Normal

namespace TypedLoader

namespace Path

theorem component_of_last {s : List Char} {c : Char} (h : s.getLast? = some c) (hc : c ≠ '.') :
    isVoid s = false ∧ component s = .name (String.ofList s) := by
  have hne (t : List Char) (ht : t.getLast? ≠ some c) : s ≠ t := by
    rintro rfl
    exact ht h
  have hup : s ≠ ['.', '.'] := hne _ (by simpa using hc.symm)
  refine ⟨?_, if_neg hup⟩
  rw [isVoid, Bool.or_eq_false_iff, beq_eq_false_iff_ne, beq_eq_false_iff_ne]
  exact ⟨hne _ (by simp), hne _ (by simpa using hc.symm)⟩

theorem length_lead_le {p : Path} {a b : List Char} (h : p.chars = a ++ b) (hb : '/' ∉ b)
    {c : Char} (hlast : b.getLast? = some c) (hc : c ≠ '.') : p.lead.length ≤ a.length := by
  cases a with
  | cons d a =>
    rw [lead, List.length_cons]
    split
    · exact Nat.le_add_left ..
    · split
      · exact Nat.le_add_left ..
      · exact Nat.zero_le _
  | nil =>
    rw [List.nil_append] at h
    have habsolute : p.isAbsolute = false := by
      rw [isAbsolute, h, beq_eq_false_iff_ne]
      exact fun he ↦ hb (List.mem_of_mem_head? (by rw [he]; rfl))
    have hhere : p.startsHere = false := by
      rw [startsHere, h]
      split
      · exact absurd (Option.some.inj hlast).symm hc
      · exact absurd (List.mem_cons_of_mem _ List.mem_cons_self) hb
      · rfl
    rw [lead, habsolute, hhere]
    exact Nat.le_refl _

theorem fileName?_of_chars {p : Path} {a b : List Char} (h : p.chars = a ++ b) (hb : '/' ∉ b)
    {c : Char} (hlast : b.getLast? = some c) (hc : c ≠ '.') :
    ∃ s, s <:+ a ∧ '/' ∉ s ∧ p.fileName? = some (String.ofList (s ++ b)) := by
  have hlead := length_lead_le h hb hlast hc
  have hmark : ∀ d ∈ b, (d == '/') = false := fun d hd ↦ beq_eq_false_iff_ne.2 fun he ↦ hb (he ▸ hd)
  obtain ⟨s, hs, hslash, hsegment⟩ := Text.getLast?_splitWhere (a.drop p.lead.length) hmark
  have hsegments : p.segments.getLast? = some (s ++ b) := by
    rw [segments, h, List.drop_append_of_le_length hlead, hsegment]
  obtain ⟨front, hfront⟩ := List.getLast?_eq_some_iff.1 hsegments
  obtain ⟨hvoid, hname⟩ := component_of_last
    (s := s ++ b) (by rw [List.getLast?_append, hlast]; rfl) hc
  obtain ⟨start, hcomponents, -, -⟩ := p.components_eq
  refine ⟨s, hs.trans (List.drop_suffix ..), ?_, fileName?_eq_some.2 ?_⟩
  · exact fun hm ↦ absurd (hslash '/' hm) (by simp)
  · rw [hcomponents, bodyComponents, hfront]
    simp [hvoid, hname]

theorem fileName?_join (p : Path) {name : String} (hslash : '/' ∉ name.toList) {c : Char}
    (hlast : name.toList.getLast? = some c) (hc : c ≠ '.') : (p.join ⟨name⟩).fileName? = some name := by
  have htext : ∃ a, (p.join ⟨name⟩).chars = a ++ name.toList ∧
      (a = [] ∨ a.getLast? = some '/') := by
    rw [join]
    split
    · exact ⟨[], rfl, Or.inl rfl⟩
    · split
      · rename_i hend
        exact ⟨p.chars, String.toList_append, Or.inr (by simpa using hend)⟩
      · refine ⟨p.chars ++ ['/'], ?_, Or.inr List.getLast?_concat⟩
        rw [chars, String.toList_append, String.toList_append]
        rfl
  obtain ⟨a, ha, hend⟩ := htext
  obtain ⟨s, hs, hfree, hname⟩ := fileName?_of_chars ha hslash hlast hc
  have hnil : s = [] := by
    rcases hend with rfl | hend
    · exact List.suffix_nil.1 hs
    · obtain ⟨front, rfl⟩ := hs
      cases hl : s.getLast? with
      | none => exact List.getLast?_eq_none_iff.1 hl
      | some d =>
        rw [List.getLast?_append, hl] at hend
        obtain rfl := Option.some.inj hend
        exact absurd (List.mem_of_getLast? hl) hfree
  rw [hname, hnil, List.nil_append, String.ofList_toList]

theorem suffix_withExtension {p : Path} (h : p.fileName?.isSome) (extension : String)
    (he : extension.isEmpty = false) :
    ("." ++ extension).toList <:+ (p.withExtension extension).text.toList := by
  obtain ⟨name, hname⟩ := Option.isSome_iff_exists.1 h
  simp only [withExtension, hname, joinSegments, ofChars, he, Bool.false_eq_true, if_false,
    String.toList_ofList]
  obtain ⟨front, hfront, -⟩ := intercalate_concat
    (((p.segments.reverse.dropWhile isVoid).drop 1).reverse)
    ((splitName name).1 ++ ("." ++ extension)).toList
  have hname : ((splitName name).1 ++ ("." ++ extension)).toList =
      (splitName name).1.toList ++ ("." ++ extension).toList := String.toList_append
  rw [hfront, hname, ← List.append_assoc, ← List.append_assoc]
  exact List.suffix_append ..

theorem fileName?_withExtension {p : Path} (h : p.fileName?.isSome) (extension : String)
    (hslash : '/' ∉ extension.toList) {c : Char} (hlast : extension.toList.getLast? = some c)
    (hc : c ≠ '.') : ∃ stem : String,
      (p.withExtension extension).fileName? = some (stem ++ ("." ++ extension)) := by
  have he : extension.isEmpty = false := by
    rw [Bool.eq_false_iff, Ne, String.isEmpty_iff]
    rintro rfl
    cases hlast
  obtain ⟨front, hfront⟩ := suffix_withExtension h extension he
  have hchars : (p.withExtension extension).chars = front ++ ("." ++ extension).toList :=
    hfront.symm
  have htext : ("." ++ extension).toList = '.' :: extension.toList := String.toList_append
  obtain ⟨s, -, -, hname⟩ := fileName?_of_chars hchars
    (by rw [htext]; simp [hslash]) (by rw [htext, List.getLast?_cons, hlast]; rfl) hc
  exact ⟨String.ofList s, by rw [hname, String.ofList_append, String.ofList_toList]⟩

end Path

end TypedLoader
