import TypedLoader.Path.Case
import TypedLoader.Proofs.Text.Search

namespace TypedLoader

namespace Path

structure IsName (s : String) : Prop where
  ne_nil : s.toList ≠ []
  ne_here : s.toList ≠ ['.']
  ne_up : s.toList ≠ ['.', '.']
  slash : '/' ∉ s.toList

theorem walk_append (names : List String) (a b : List Component) :
    walk names (a ++ b) = walk (walk names a) b := by
  induction a generalizing names with
  | nil => rfl
  | cons c a ih => cases c <;> exact ih _

theorem mem_walk {names : List String} {cs : List Component} {s : String}
    (h : s ∈ walk names cs) : s ∈ names ∨ .name s ∈ cs := by
  induction cs generalizing names with
  | nil => exact Or.inl h
  | cons c cs ih =>
    cases c with
    | name t =>
      rcases ih h with h | h
      · rcases List.mem_cons.1 h with rfl | h
        · exact Or.inr List.mem_cons_self
        · exact Or.inl h
      · exact Or.inr (List.mem_cons_of_mem _ h)
    | up =>
      rcases ih h with h | h
      · exact Or.inl (List.mem_of_mem_tail h)
      · exact Or.inr (List.mem_cons_of_mem _ h)
    | _ =>
      rcases ih h with h | h
      · exact Or.inl h
      · exact Or.inr (List.mem_cons_of_mem _ h)

theorem walk_names (names rest : List String) :
    walk names (rest.map .name) = rest.reverse ++ names := by
  induction rest generalizing names with
  | nil => rfl
  | cons s rest ih =>
    rw [List.map_cons, walk, ih, List.reverse_cons, List.append_assoc, List.singleton_append]

theorem isName_of_mem_bodyComponents {p : Path} {s : String}
    (h : .name s ∈ p.bodyComponents) : IsName s := by
  obtain ⟨segment, hm, he⟩ := List.mem_map.1 h
  obtain ⟨hseg, hv⟩ := List.mem_filter.1 hm
  have hslash : '/' ∉ segment := fun hc ↦ by
    have := (Text.mem_of_mem_splitWhere hseg hc).2
    simp at this
  rw [isVoid, Bool.not_eq_true', Bool.or_eq_false_iff, beq_eq_false_iff_ne,
    beq_eq_false_iff_ne] at hv
  rw [component] at he
  split at he
  · cases he
  · rename_i hup
    obtain rfl := Component.name.inj he
    have hl : (String.ofList segment).toList = segment := String.toList_ofList
    exact ⟨hl.symm ▸ hv.1, hl.symm ▸ hv.2, hl.symm ▸ hup, hl.symm ▸ hslash⟩

theorem components_eq (p : Path) : ∃ lead : List Component,
    p.components = lead ++ p.bodyComponents ∧ (∀ s, .name s ∉ lead) ∧
      ∀ names, walk names lead = names := by
  rw [components]
  split
  · exact ⟨[.root], rfl, by simp, fun _ ↦ rfl⟩
  · split
    · exact ⟨[.here], rfl, by simp, fun _ ↦ rfl⟩
    · exact ⟨[], rfl, by simp, fun _ ↦ rfl⟩

theorem isName_of_mem_names {p : Path} {s : String} (h : s ∈ p.names) : IsName s := by
  obtain ⟨lead, hc, hn, -⟩ := p.components_eq
  rcases mem_walk (List.mem_reverse.1 h) with h | h
  · cases h
  · rw [hc] at h
    rcases List.mem_append.1 h with h | h
    · exact absurd h (hn s)
    · exact isName_of_mem_bodyComponents h

section OfNames

variable {absolute : Bool} {names : List String}

theorem chars_ofNames (absolute : Bool) (names : List String) :
    (ofNames absolute names).chars =
      (if absolute then ['/'] else []) ++ List.intercalate ['/'] (names.map String.toList) := by
  have hs : "/".toList = ['/'] := rfl
  rw [chars, ofNames, String.toList_append, String.toList_intercalate, hs]
  cases absolute <;> rfl

theorem head?_intercalate (h : ∀ s ∈ names, IsName s) :
    (List.intercalate ['/'] (names.map String.toList)).head? ≠ some '/' := by
  cases names with
  | nil => simp
  | cons s rest =>
    have hs := h s List.mem_cons_self
    obtain ⟨c, cs, hc⟩ := List.exists_cons_of_ne_nil hs.ne_nil
    rw [List.map_cons, hc, List.intercalate_cons_cons_left, List.head?_cons]
    intro he
    obtain rfl := Option.some.inj he
    exact hs.slash (hc ▸ List.mem_cons_self)

theorem isAbsolute_ofNames (h : ∀ s ∈ names, IsName s) :
    (ofNames absolute names).isAbsolute = absolute := by
  rw [isAbsolute, chars_ofNames]
  cases absolute with
  | true => rfl
  | false => exact beq_eq_false_iff_ne.2 (head?_intercalate h)

theorem startsHere_ofNames (h : ∀ s ∈ names, IsName s) :
    (ofNames false names).startsHere = false := by
  have hc : (ofNames false names).chars = List.intercalate ['/'] (names.map String.toList) :=
    chars_ofNames false names
  rw [startsHere, hc]
  cases names with
  | nil => rfl
  | cons s rest =>
    have hs := h s List.mem_cons_self
    obtain ⟨c, cs, hl⟩ := List.exists_cons_of_ne_nil hs.ne_nil
    have hdot : c = '.' → cs ≠ [] := by
      rintro rfl rfl
      exact hs.ne_here hl
    rw [List.map_cons, hl, List.intercalate_cons_cons_left]
    cases cs with
    | nil =>
      have hne : c ≠ '.' := fun he ↦ hdot he rfl
      split
      · rename_i he
        exact absurd (List.cons.inj he).1 hne
      · rename_i he
        exact absurd (List.cons.inj he).1 hne
      · rfl
    | cons d cs =>
      rw [List.intercalate_cons_cons_left]
      split
      · rename_i he
        exact absurd (List.cons.inj he).2 (List.cons_ne_nil _ _)
      · rename_i he
        obtain ⟨rfl, -⟩ := List.cons.inj (List.cons.inj he).2
        refine absurd ?_ hs.slash
        rw [hl]
        exact List.mem_cons_of_mem _ List.mem_cons_self
      · rfl

theorem drop_lead_ofNames (h : ∀ s ∈ names, IsName s) :
    (ofNames absolute names).chars.drop (ofNames absolute names).lead.length =
      List.intercalate ['/'] (names.map String.toList) := by
  rw [lead, isAbsolute_ofNames h, chars_ofNames]
  cases absolute with
  | true => rfl
  | false =>
    rw [startsHere_ofNames h]
    rfl

theorem segments_ofNames (h : ∀ s ∈ names, IsName s) (hn : names ≠ []) :
    (ofNames absolute names).segments = names.map String.toList := by
  have hmark : ∀ s ∈ names.map String.toList, ∀ c ∈ s, (c == '/') = false := by
    intro s hs c hc
    obtain ⟨name, hm, rfl⟩ := List.mem_map.1 hs
    rw [beq_eq_false_iff_ne]
    rintro rfl
    exact (h name hm).slash hc
  rw [segments, drop_lead_ofNames h]
  exact Text.splitWhere_intercalate (beq_self_eq_true '/') hmark (by simpa using hn)

theorem bodyComponents_ofNames (h : ∀ s ∈ names, IsName s) :
    (ofNames absolute names).bodyComponents = names.map .name := by
  by_cases hn : names = []
  · rw [bodyComponents, segments, drop_lead_ofNames h, hn]
    rfl
  have hv : ∀ s ∈ names.map String.toList, (!isVoid s) = true := by
    intro s hs
    obtain ⟨name, hm, rfl⟩ := List.mem_map.1 hs
    rw [isVoid, beq_eq_false_iff_ne.2 (h name hm).ne_nil, beq_eq_false_iff_ne.2 (h name hm).ne_here]
    rfl
  rw [bodyComponents, segments_ofNames h hn, List.filter_eq_self.2 hv, List.map_map]
  apply List.map_congr_left
  intro s hs
  rw [Function.comp_apply, component, if_neg (h s hs).ne_up, String.ofList_toList]

theorem names_ofNames (h : ∀ s ∈ names, IsName s) : (ofNames absolute names).names = names := by
  obtain ⟨lead, hc, -, hw⟩ := (ofNames absolute names).components_eq
  rw [Path.names, hc, walk_append, hw, bodyComponents_ofNames h, walk_names, List.append_nil,
    List.reverse_reverse]

end OfNames

@[simp] theorem names_normalize (p : Path) : p.normalize.names = p.names :=
  names_ofNames fun _ h ↦ isName_of_mem_names h

@[simp] theorem isAbsolute_normalize (p : Path) : p.normalize.isAbsolute = p.isAbsolute :=
  isAbsolute_ofNames fun _ h ↦ isName_of_mem_names h

@[simp] theorem normalize_normalize (p : Path) : p.normalize.normalize = p.normalize := by
  rw [normalize, isAbsolute_normalize, names_normalize]
  rfl

theorem fileName?_eq_some {p : Path} {s : String} :
    p.fileName? = some s ↔ p.components.getLast? = some (.name s) := by
  rw [fileName?]
  split
  · rename_i t ht
    rw [ht, Option.some.injEq, Option.some.injEq, Component.name.injEq]
  · rename_i hn
    exact ⟨fun h ↦ (nomatch h), fun h ↦ absurd h (hn s)⟩

theorem getLast?_names {p : Path} {s : String} (h : p.fileName? = some s) :
    p.names.getLast? = some s := by
  obtain ⟨front, hf⟩ := List.getLast?_eq_some_iff.1 (fileName?_eq_some.1 h)
  rw [Path.names, hf, walk_append, walk, walk, List.reverse_cons, List.getLast?_concat]

theorem fileName?_ofNames {absolute : Bool} {names : List String} (h : ∀ s ∈ names, IsName s) :
    (ofNames absolute names).fileName? = names.getLast? := by
  obtain ⟨lead, hc, hl, -⟩ := (ofNames absolute names).components_eq
  rw [bodyComponents_ofNames h] at hc
  cases hn : names.getLast? with
  | none =>
    rw [List.getLast?_eq_none_iff] at hn
    rw [hn, List.map_nil, List.append_nil] at hc
    cases hf : (ofNames absolute names).fileName? with
    | none => rfl
    | some s =>
      have hs := fileName?_eq_some.1 hf
      rw [hn, hc] at hs
      exact absurd (List.mem_of_getLast? hs) (hl s)
  | some s =>
    obtain ⟨front, rfl⟩ := List.getLast?_eq_some_iff.1 hn
    rw [fileName?_eq_some, hc, List.map_append, ← List.append_assoc]
    exact List.getLast?_concat

theorem fileName?_normalize (p : Path) : p.normalize.fileName? = p.names.getLast? :=
  fileName?_ofNames fun _ h ↦ isName_of_mem_names h

/-- The normal form of a declaration file is one. The converse fails where a
path goes down and up again at its end. -/
theorem isDeclaration_normalize_of {p : Path} (h : p.isDeclaration = true) :
    p.normalize.isDeclaration = true := by
  rw [isDeclaration] at h ⊢
  cases hf : p.fileName? with
  | none =>
    rw [hf] at h
    cases h
  | some s =>
    rw [fileName?_normalize, getLast?_names hf]
    rw [hf] at h
    exact h

def endsDeclared (text : List Char) : Bool :=
  declarationSuffixes.any fun suffix ↦
    suffix.toList.reverse.isPrefixOf (text.map Text.lowerAscii).reverse

theorem isPrefixOf_append_slash {a s rest : List Char} (h : '/' ∉ a)
    (hr : rest.head? = none ∨ rest.head? = some '/') :
    a.isPrefixOf (s ++ rest) = a.isPrefixOf s := by
  induction a generalizing s with
  | nil => simp
  | cons c a ih =>
    cases s with
    | cons d s =>
      rw [List.cons_append, List.isPrefixOf_cons_cons, List.isPrefixOf_cons_cons,
        ih fun hm ↦ h (List.mem_cons_of_mem c hm)]
    | nil =>
      cases rest with
      | nil => rfl
      | cons d rest =>
        have hd : d = '/' := by simpa using hr
        have hc : (c == d) = false := by
          rw [beq_eq_false_iff_ne, hd]
          rintro rfl
          exact h List.mem_cons_self
        rw [List.nil_append, List.isPrefixOf_cons_cons, hc]
        rfl

theorem isPrefixOf_map_congr {a s : List Char} {f g : Char → Char}
    (h : ∀ c ∈ a, ∀ d, (c == f d) = (c == g d)) :
    a.isPrefixOf (s.map f) = a.isPrefixOf (s.map g) := by
  induction a generalizing s with
  | nil => simp
  | cons c a ih =>
    cases s with
    | nil => rfl
    | cons d s =>
      rw [List.map_cons, List.map_cons, List.isPrefixOf_cons_cons, List.isPrefixOf_cons_cons,
        h c List.mem_cons_self, ih fun e he ↦ h e (List.mem_cons_of_mem c he)]

theorem plain_of_mem_suffixes : ∀ suffix ∈ declarationSuffixes,
    '/' ∉ suffix.toList.reverse ∧ '\\' ∉ suffix.toList.reverse := by
  decide

theorem intercalate_concat (front : List (List Char)) (s : List Char) :
    ∃ pre, List.intercalate ['/'] (front ++ [s]) = pre ++ s ∧
      (pre.getLast? = none ∨ pre.getLast? = some '/') := by
  induction front with
  | nil => exact ⟨[], List.intercalate_singleton, Or.inl rfl⟩
  | cons t front ih =>
    obtain ⟨pre, he, hp⟩ := ih
    refine ⟨t ++ ['/'] ++ pre, ?_, Or.inr ?_⟩
    · rw [List.cons_append, List.intercalate_cons_of_ne_nil (by simp), he, List.append_assoc _ pre]
    · rw [List.getLast?_append, List.getLast?_concat]
      rcases hp with hp | hp <;> rw [hp] <;> rfl

theorem any_eq_any {α : Type} {l : List α} {p q : α → Bool} (h : ∀ a ∈ l, p a = q a) :
    l.any p = l.any q := by
  induction l with
  | nil => rfl
  | cons a l ih =>
    rw [List.any_cons, List.any_cons, h a List.mem_cons_self,
      ih fun b hb ↦ h b (List.mem_cons_of_mem a hb)]

theorem isDeclaration_ofNames {absolute : Bool} {names : List String}
    (h : ∀ s ∈ names, IsName s) :
    (ofNames absolute names).isDeclaration = endsDeclared (ofNames absolute names).chars := by
  rw [isDeclaration, fileName?_ofNames h]
  cases hn : names.getLast? with
  | none =>
    rw [List.getLast?_eq_none_iff.1 hn]
    cases absolute <;> decide
  | some s =>
    obtain ⟨front, rfl⟩ := List.getLast?_eq_some_iff.1 hn
    obtain ⟨pre, he, hp⟩ := intercalate_concat (front.map String.toList) s.toList
    have hc : ∃ pre, (ofNames absolute (front ++ [s])).chars = pre ++ s.toList ∧
        (pre.getLast? = none ∨ pre.getLast? = some '/') := by
      refine ⟨(if absolute then ['/'] else []) ++ pre, ?_, ?_⟩
      · rw [chars_ofNames, List.map_append, List.map_singleton, he, List.append_assoc]
      · rw [List.getLast?_append]
        cases absolute <;> rcases hp with hp | hp <;> rw [hp] <;> simp
    obtain ⟨pre, hc, hp⟩ := hc
    rw [endsDeclared, hc]
    apply any_eq_any
    intro suffix hs
    rw [List.map_append, List.reverse_append]
    refine (isPrefixOf_append_slash (plain_of_mem_suffixes suffix hs).1 ?_).symm
    rw [List.head?_reverse, List.getLast?_map]
    rcases hp with hp | hp <;> rw [hp]
    · exact Or.inl rfl
    · exact Or.inr rfl

theorem endsDeclared_fold (text : List Char) :
    endsDeclared (text.map fun c ↦ if c = '\\' then '/' else c) = endsDeclared text := by
  apply any_eq_any
  intro suffix hs
  obtain ⟨hslash, hback⟩ := plain_of_mem_suffixes suffix hs
  rw [List.map_map, ← List.map_reverse, ← List.map_reverse]
  apply isPrefixOf_map_congr
  intro c hc d
  rw [Function.comp_apply]
  split
  · rename_i hd
    have h₁ : (c == Text.lowerAscii '/') = false := by
      rw [beq_eq_false_iff_ne]
      rintro rfl
      exact hslash hc
    have h₂ : (c == Text.lowerAscii '\\') = false := by
      rw [beq_eq_false_iff_ne]
      rintro rfl
      exact hback hc
    rw [hd, h₁, h₂]
  · rfl

theorem isDeclaration_normalize (p : Path) :
    p.normalize.isDeclaration = endsDeclared (PathCase.sensitive.key p).toList := by
  rw [PathCase.key, PathCase.fold, String.toList_ofList, endsDeclared_fold]
  exact isDeclaration_ofNames fun _ h ↦ isName_of_mem_names h

end Path

@[simp] theorem PathCase.key_normalize (case : PathCase) (p : Path) :
    case.key p.normalize = case.key p := by
  rw [key, Path.normalize_normalize, key]

end TypedLoader
