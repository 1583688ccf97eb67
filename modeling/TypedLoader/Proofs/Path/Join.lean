import TypedLoader.Proofs.Path.Normal

namespace TypedLoader.Path

variable {p q : Path}

def steps (s : List Char) : List (List Char) := (Text.splitWhere (· == '/') s).filter (!isVoid ·)

/-- What follows the root or the current directory that a path starts with. -/
def body (p : Path) : List Char := p.chars.drop p.lead.length

theorem segments_eq (p : Path) : p.segments = Text.splitWhere (· == '/') p.body := rfl

theorem bodyComponents_eq (p : Path) : p.bodyComponents = (steps p.body).map component := rfl

theorem splitWhere_slash (a b : List Char) : Text.splitWhere (· == '/') (a ++ '/' :: b) =
    Text.splitWhere (· == '/') a ++ Text.splitWhere (· == '/') b :=
  Text.splitWhere_mark a b (beq_self_eq_true '/')

theorem steps_slash (a b : List Char) : steps (a ++ '/' :: b) = steps a ++ steps b := by
  rw [steps, splitWhere_slash, List.filter_append]
  rfl

theorem startsHere_iff :
    p.startsHere = true ↔ p.chars = ['.'] ∨ ∃ rest, p.chars = '.' :: '/' :: rest := by
  rw [startsHere]
  split
  · rename_i h
    exact iff_of_true rfl (Or.inl h)
  · rename_i rest h
    exact iff_of_true rfl (Or.inr ⟨rest, h⟩)
  · rename_i hone hmore
    refine iff_of_false Bool.false_ne_true ?_
    rintro (h | ⟨rest, h⟩)
    · exact hone h
    · exact hmore rest h

theorem isAbsolute_iff : p.isAbsolute = true ↔ ∃ rest, p.chars = '/' :: rest := by
  rw [isAbsolute, beq_iff_eq]
  cases p.chars with
  | nil => simp
  | cons c rest => simp

theorem isEmpty_iff : p.isEmpty = true ↔ p.chars = [] := by
  rw [isEmpty, String.isEmpty_iff, chars, ← String.toList_eq_nil_iff]

theorem chars_ne_nil (h : p.isEmpty = false) : p.chars ≠ [] := by
  rwa [← Bool.not_eq_true, isEmpty_iff] at h

theorem chars_eq (p : Path) : p.chars = p.lead ++ p.body := by
  rw [body, lead]
  split
  · rename_i habsolute
    obtain ⟨rest, h⟩ := isAbsolute_iff.1 habsolute
    rw [h]
    rfl
  · split
    · rename_i hhere
      rcases startsHere_iff.1 hhere with h | ⟨rest, h⟩ <;> rw [h] <;> rfl
    · rfl

theorem steps_chars (hq : q.isAbsolute = false) : steps q.chars = steps q.body := by
  rw [body, lead, hq, if_neg Bool.false_ne_true]
  split
  · rename_i hhere
    rcases startsHere_iff.1 hhere with h | ⟨rest, h⟩
    · rw [h]
      rfl
    · have hdot : steps ['.'] = steps [] := rfl
      have hleft : steps ('.' :: '/' :: rest) = steps ['.'] ++ steps rest := steps_slash ['.'] rest
      have hright : steps ('/' :: rest) = steps [] ++ steps rest := steps_slash [] rest
      rw [h, hleft, hdot, ← hright]
      rfl
  · rfl

def seam (p : Path) : List Char := if p.chars.getLast? = some '/' then [] else ['/']

theorem chars_join (hp : p.isEmpty = false) (hq : q.isAbsolute = false) :
    (p.join q).chars = p.chars ++ (p.seam ++ q.chars) := by
  rw [join, hp, hq, seam]
  simp only [beq_iff_eq, Bool.or_self, Bool.false_eq_true, if_false]
  split
  · exact String.toList_append
  · have hslash : "/".toList = ['/'] := rfl
    rw [chars, String.toList_append, String.toList_append, hslash, List.append_assoc]
    rfl

theorem isAbsolute_join (hq : q.isAbsolute = false) : (p.join q).isAbsolute = p.isAbsolute := by
  cases hp : p.isEmpty with
  | true =>
    have hnil := isEmpty_iff.1 hp
    rw [join, hp, Bool.or_true, if_pos rfl, hq, isAbsolute, hnil]
    rfl
  | false =>
    obtain ⟨c, cs, hc⟩ := List.exists_cons_of_ne_nil (chars_ne_nil hp)
    rw [isAbsolute, isAbsolute, chars_join hp hq, hc]
    rfl

theorem lead_join (hp : p.isEmpty = false) (hq : q.isAbsolute = false) :
    (p.join q).lead = p.lead := by
  have hhere : p.isAbsolute = false → (p.join q).startsHere = p.startsHere := by
    intro habsolute
    rw [Bool.eq_iff_iff, startsHere_iff, startsHere_iff, chars_join hp hq, seam]
    cases hc : p.chars with
    | nil => exact absurd hc (chars_ne_nil hp)
    | cons c cs =>
      have hne : c ≠ '/' := by
        rintro rfl
        exact absurd (isAbsolute_iff.2 ⟨cs, hc⟩) (by rw [habsolute]; exact Bool.false_ne_true)
      cases cs with
      | nil => simp [hne]
      | cons d cs => simp
  rw [lead, lead, isAbsolute_join hq]
  cases habsolute : p.isAbsolute with
  | true => rfl
  | false => rw [hhere habsolute]

theorem body_join (hp : p.isEmpty = false) (hq : q.isAbsolute = false) :
    (p.join q).body = p.body ++ (p.seam ++ q.chars) := by
  have hchars := chars_join hp hq
  rw [chars_eq, chars_eq p, lead_join hp hq, List.append_assoc] at hchars
  exact List.append_cancel_left hchars

theorem segments_join (hp : p.isEmpty = false) (hq : q.isAbsolute = false) :
    ∃ front, (p.join q).segments = front ++ Text.splitWhere (· == '/') q.chars ∧
      front.filter (!isVoid ·) = steps p.body := by
  rw [segments_eq, body_join hp hq, seam]
  split
  · rename_i hlast
    rw [List.nil_append]
    rcases List.eq_nil_or_concat p.body with hbody | ⟨back, c, hbody⟩
    · exact ⟨[], by rw [hbody]; rfl, by rw [hbody]; rfl⟩
    · -- the path ends in a separator, which closes its last segment
      rw [chars_eq, hbody, List.concat_eq_append, ← List.append_assoc,
        List.getLast?_concat] at hlast
      obtain rfl := Option.some.inj hlast
      refine ⟨Text.splitWhere (· == '/') back, ?_, ?_⟩
      · rw [hbody, List.concat_eq_append, List.append_assoc, List.singleton_append,
          splitWhere_slash]
      · rw [hbody, List.concat_eq_append, steps_slash]
        exact (List.append_nil _).symm
  · refine ⟨Text.splitWhere (· == '/') p.body, ?_, rfl⟩
    rw [List.singleton_append, splitWhere_slash]

theorem bodyComponents_join (p : Path) (hq : q.isAbsolute = false) :
    (p.join q).bodyComponents = p.bodyComponents ++ q.bodyComponents := by
  cases hp : p.isEmpty with
  | true =>
    have hnone : p.bodyComponents = [] := by
      have hnil := isEmpty_iff.1 hp
      rw [bodyComponents_eq, body, hnil, List.drop_nil]
      rfl
    rw [hnone, join, hp, Bool.or_true]
    rfl
  | false =>
    obtain ⟨front, hsegments, hfront⟩ := segments_join hp hq
    rw [bodyComponents, hsegments, List.filter_append, hfront, List.map_append]
    exact congrArg (_ ++ ·) (congrArg (List.map component) (steps_chars hq))

theorem names_eq (p : Path) : p.names = (walk [] p.bodyComponents).reverse := by
  obtain ⟨lead, hcomponents, -, hlead⟩ := p.components_eq
  rw [names, hcomponents, walk_append, hlead]

theorem names_join (p : Path) (hq : q.isAbsolute = false) :
    (p.join q).names = (walk p.names.reverse q.bodyComponents).reverse := by
  rw [names_eq, bodyComponents_join p hq, walk_append, names_eq p, List.reverse_reverse]

/-- Joined paths have one normal form if the directories have. -/
theorem normalize_join (p q : Path) : (p.join q).normalize = (p.normalize.join q).normalize := by
  cases hq : q.isAbsolute with
  | true =>
    have hjoin (r : Path) : r.join q = q := by rw [join, hq, Bool.true_or, if_pos rfl]
    rw [hjoin, hjoin]
  | false =>
    rw [normalize, normalize, isAbsolute_join hq, isAbsolute_join hq, isAbsolute_normalize,
      names_join p hq, names_join p.normalize hq, names_normalize]

end TypedLoader.Path
