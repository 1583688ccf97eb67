import Mathlib.Data.List.Induction
import TypedLoader.Proofs.Path.Join

namespace TypedLoader.Path

variable {p : Path} {segments : List (List Char)} {name : String}

def componentsOf (segments : List (List Char)) : List Component :=
  (segments.filter (!isVoid ·)).map component

theorem componentsOf_append (a b : List (List Char)) :
    componentsOf (a ++ b) = componentsOf a ++ componentsOf b := by
  rw [componentsOf, List.filter_append, List.map_append]
  rfl

theorem componentsOf_void {s : List Char} (hs : isVoid s = true) (rest : List (List Char)) :
    componentsOf (s :: rest) = componentsOf rest := by
  rw [componentsOf, List.filter_cons_of_neg (by simpa using hs)]
  rfl

theorem componentsOf_step {s : List Char} (hs : isVoid s = false) (rest : List (List Char)) :
    componentsOf (s :: rest) = component s :: componentsOf rest := by
  rw [componentsOf, List.filter_cons_of_pos (by simpa using hs)]
  rfl

theorem IsName.isVoid (h : IsName name) : Path.isVoid name.toList = false := by
  rw [Path.isVoid, Bool.or_eq_false_iff, beq_eq_false_iff_ne, beq_eq_false_iff_ne]
  exact ⟨h.ne_nil, h.ne_here⟩

theorem IsName.isAbsolute (h : IsName name) : (⟨name⟩ : Path).isAbsolute = false := by
  rw [Path.isAbsolute, beq_eq_false_iff_ne]
  exact fun hhead ↦ h.slash (List.mem_of_mem_head? hhead)

theorem IsName.component (h : IsName name) : Path.component name.toList = .name name := by
  rw [Path.component, if_neg h.ne_up, String.ofList_toList]

theorem normalize_of_isAbsolute (h : p.isAbsolute = true) :
    p.normalize = ofNames true (walk [] p.bodyComponents).reverse := by
  rw [normalize, h, names_eq]

/-- An absolute path whose text ends in a name, and the components before it. -/
structure EndsIn (p : Path) (front : List Component) (name : String) : Prop where
  isAbsolute : p.isAbsolute = true
  isName : IsName name
  segments : ∃ segments, p.segments = segments ++ [name.toList] ∧ componentsOf segments = front

namespace EndsIn

variable {front : List Component}

theorem bodyComponents (h : p.EndsIn front name) : p.bodyComponents = front ++ [.name name] := by
  obtain ⟨segments, hsegments, hfront⟩ := h.segments
  have hbody : p.bodyComponents = componentsOf p.segments := rfl
  rw [hbody, hsegments, componentsOf_append, hfront, componentsOf_step h.isName.isVoid,
    h.isName.component]
  rfl

theorem names (h : p.EndsIn front name) : p.names = (walk [] front).reverse ++ [name] := by
  rw [names_eq, h.bodyComponents, walk_append]
  exact List.reverse_cons

theorem normalize (h : p.EndsIn front name) :
    p.normalize = ofNames true (name :: walk [] front).reverse := by
  rw [normalize_of_isAbsolute h.isAbsolute, h.bodyComponents, walk_append]
  rfl

end EndsIn

theorem endsIn_join (hp : p.isAbsolute = true) (hname : IsName name) :
    (p.join ⟨name⟩).EndsIn p.bodyComponents name := by
  have hne : p.isEmpty = false := by
    obtain ⟨rest, hrest⟩ := isAbsolute_iff.1 hp
    rw [← Bool.not_eq_true, isEmpty_iff, hrest]
    exact List.cons_ne_nil _ _
  have hone : Text.splitWhere (· == '/') name.toList = [name.toList] :=
    Text.splitWhere_of_none fun c hc ↦ beq_eq_false_iff_ne.2 fun he ↦ hname.slash (he ▸ hc)
  obtain ⟨front, hsegments, hfront⟩ := segments_join hne hname.isAbsolute
  refine ⟨by rw [isAbsolute_join hname.isAbsolute, hp], hname, front, ?_, ?_⟩
  · rw [hsegments]
    exact congrArg (front ++ ·) hone
  · rw [componentsOf, hfront, bodyComponents_eq]

theorem slash_notMem_of_mem_segments {s : List Char} (hs : s ∈ p.segments) : '/' ∉ s := fun hc ↦ by
  have hmark := (Text.mem_of_mem_splitWhere hs hc).2
  simp at hmark

theorem isAbsolute_joinSegments (segments : List (List Char)) :
    (joinSegments ['/'] segments).isAbsolute = true := by
  rw [isAbsolute_iff, joinSegments, chars, ofChars, String.toList_ofList]
  exact ⟨_, rfl⟩

theorem segments_joinSegments (h : ∀ s ∈ segments, '/' ∉ s) (hne : segments ≠ []) :
    (joinSegments ['/'] segments).segments = segments := by
  have hmark : ∀ s ∈ segments, ∀ c ∈ s, (c == '/') = false :=
    fun s hs c hc ↦ beq_eq_false_iff_ne.2 fun he ↦ h s hs (he ▸ hc)
  rw [Path.segments, lead, isAbsolute_joinSegments, joinSegments, chars, ofChars,
    String.toList_ofList]
  exact Text.splitWhere_intercalate (beq_self_eq_true '/') hmark hne

theorem componentsOf_joinSegments (h : ∀ s ∈ segments, '/' ∉ s) :
    (joinSegments ['/'] segments).bodyComponents = componentsOf segments := by
  by_cases hne : segments = []
  · subst hne
    rfl
  · have hbody : (joinSegments ['/'] segments).bodyComponents =
        componentsOf (joinSegments ['/'] segments).segments := rfl
    rw [hbody, segments_joinSegments h hne]

theorem lead_of_isAbsolute (h : p.isAbsolute = true) : p.lead = ['/'] := by
  rw [lead, if_pos h]

theorem componentsOf_dropWhile (segments : List (List Char)) :
    componentsOf (segments.reverse.dropWhile isVoid).reverse = componentsOf segments := by
  induction segments using List.reverseRecOn with
  | nil => rfl
  | append_singleton segments s ih =>
    rw [List.reverse_append, List.reverse_singleton, List.singleton_append, List.dropWhile_cons]
    split
    · rename_i hs
      rw [ih, componentsOf_append, componentsOf_void hs]
      exact (List.append_nil _).symm
    · rw [List.reverse_cons, List.reverse_reverse]

theorem mem_parentsOf {lead : List Char} {q : Path} (h : q ∈ parentsOf lead segments) :
    q = ⟨""⟩ ∨ ∃ above, q = joinSegments lead above.reverse ∧ above <:+ segments := by
  induction segments with
  | nil =>
    rw [parentsOf] at h
    split at h
    · exact Or.inl (List.mem_singleton.1 h)
    · cases h
  | cons s rest ih =>
    have hrest (h : q ∈ parentsOf lead rest) :
        q = ⟨""⟩ ∨ ∃ above, q = joinSegments lead above.reverse ∧ above <:+ s :: rest :=
      (ih h).imp_right fun ⟨above, hq, hsuffix⟩ ↦
        ⟨above, hq, hsuffix.trans (List.suffix_cons s rest)⟩
    rw [parentsOf] at h
    split at h
    · exact hrest h
    · rcases List.mem_cons.1 h with rfl | h
      · exact Or.inr ⟨rest.dropWhile isVoid, rfl,
          (List.dropWhile_suffix isVoid).trans (List.suffix_cons s rest)⟩
      · exact hrest h

theorem exists_of_intercalate {rest : List Char} (h : ∀ s ∈ segments, '/' ∉ s)
    (he : ['/'].intercalate segments = '/' :: rest) :
    ∃ others, segments = [] :: others ∧ others ≠ [] := by
  cases segments with
  | nil => cases he
  | cons s others =>
    cases s with
    | cons c s =>
      rw [List.intercalate_cons_cons_left] at he
      obtain rfl := (List.cons.inj he).1
      exact absurd List.mem_cons_self (h _ List.mem_cons_self)
    | nil =>
      cases others with
      | nil => cases he
      | cons t others => exact ⟨_, rfl, List.cons_ne_nil _ _⟩

theorem isAbsolute_of_segments {rest : List (List Char)} (h : p.segments = [] :: rest)
    (hrest : rest ≠ []) (hlead : p.lead = []) : p.isAbsolute = true := by
  rw [segments, hlead] at h
  rw [isAbsolute_iff]
  cases hchars : p.chars with
  | nil =>
    rw [hchars] at h
    exact absurd (List.cons.inj h).2.symm hrest
  | cons c cs =>
    rw [hchars, List.length_nil, List.drop_zero, Text.splitWhere] at h
    split at h
    · rename_i hc
      exact ⟨cs, by rw [beq_iff_eq.1 hc]⟩
    · split at h
      · cases h
      · cases h

theorem isAbsolute_of_parent? {q : Path} (h : p.parent? = some q) (hq : q.isAbsolute = true) :
    p.isAbsolute = true := by
  rcases mem_parentsOf (List.mem_of_head? h) with rfl | ⟨above, rfl, below, hbelow⟩
  · exact absurd hq (by decide)
  have hsegments : p.segments = above.reverse ++ below.reverse := by
    rw [← List.reverse_append, hbelow, List.reverse_reverse]
  obtain ⟨rest, hrest⟩ := isAbsolute_iff.1 hq
  rw [joinSegments, chars, ofChars, String.toList_ofList] at hrest
  by_contra habsolute
  have hlead : p.lead = ['.'] ∨ p.lead = [] := by
    rw [lead, if_neg habsolute]
    split
    · exact Or.inl rfl
    · exact Or.inr rfl
  rcases hlead with hlead | hlead
  · rw [hlead] at hrest
    exact absurd (List.cons.inj hrest).1 (by decide)
  · rw [hlead, List.nil_append] at hrest
    obtain ⟨others, hfirst, hothers⟩ := exists_of_intercalate (fun s hs ↦
      slash_notMem_of_mem_segments (hsegments ▸ List.mem_append_left _ hs)) hrest
    rw [hfirst] at hsegments
    exact habsolute
      (isAbsolute_of_segments hsegments (List.append_ne_nil_of_left_ne_nil hothers _) hlead)

namespace EndsIn

variable {front : List Component}

theorem parent? (h : p.EndsIn front name) :
    ∃ q, p.parent? = some q ∧ q.isAbsolute = true ∧ q.bodyComponents = front := by
  obtain ⟨segments, hsegments, hfront⟩ := h.segments
  refine ⟨joinSegments ['/'] (segments.reverse.dropWhile Path.isVoid).reverse, ?_,
    isAbsolute_joinSegments _, ?_⟩
  · rw [Path.parent?, parents, hsegments, List.reverse_append, List.reverse_singleton,
      List.singleton_append, parentsOf, h.isName.isVoid, lead_of_isAbsolute h.isAbsolute]
    rfl
  · rw [componentsOf_joinSegments, componentsOf_dropWhile, hfront]
    intro s hs
    have hmem := List.mem_reverse.1
      ((List.dropWhile_suffix Path.isVoid).mem (List.mem_reverse.1 hs))
    exact slash_notMem_of_mem_segments (hsegments ▸ List.mem_append_left _ hmem)

/-- Another extension makes a file in the same directory. -/
theorem withExtension (h : p.EndsIn front name) (extension : String)
    (hname : IsName ((splitName name).1 ++ (if extension.isEmpty then "" else "." ++ extension))) :
    (p.withExtension extension).EndsIn front
      ((splitName name).1 ++ (if extension.isEmpty then "" else "." ++ extension)) := by
  obtain ⟨segments, hsegments, hfront⟩ := h.segments
  have hfile : p.fileName? = some name := by
    rw [fileName?_eq_some, components, if_pos h.isAbsolute, h.bodyComponents, ← List.cons_append,
      List.getLast?_concat]
  have hpath : p.withExtension extension = joinSegments ['/'] (segments ++
      [((splitName name).1 ++ (if extension.isEmpty then "" else "." ++ extension)).toList]) := by
    rw [Path.withExtension, hfile]
    simp only
    rw [lead_of_isAbsolute h.isAbsolute, hsegments, List.reverse_append, List.reverse_singleton,
      List.singleton_append, List.dropWhile_cons_of_neg (by simp [h.isName.isVoid]),
      List.drop_one, List.tail_cons, List.reverse_reverse]
  have hslash : ∀ s ∈ segments ++
      [((splitName name).1 ++ (if extension.isEmpty then "" else "." ++ extension)).toList],
      '/' ∉ s := by
    intro s hs
    rcases List.mem_append.1 hs with hs | hs
    · exact slash_notMem_of_mem_segments (hsegments ▸ List.mem_append_left _ hs)
    · exact List.mem_singleton.1 hs ▸ hname.slash
  refine ⟨hpath ▸ isAbsolute_joinSegments _, hname, segments, ?_, hfront⟩
  rw [hpath, segments_joinSegments hslash (by simp)]

end EndsIn

end TypedLoader.Path
