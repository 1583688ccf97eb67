import TypedLoader.Text.Search

namespace TypedLoader.Text

variable {α : Type} {mark : α → Bool}

theorem splitWhere_of_none {s : List α} (h : ∀ c ∈ s, mark c = false) :
    splitWhere mark s = [s] := by
  induction s with
  | nil => rfl
  | cons c s ih =>
    rw [splitWhere, h c List.mem_cons_self, ih fun d hd ↦ h d (List.mem_cons_of_mem c hd)]
    rfl

theorem splitWhere_append {s rest : List α} {c : α} (h : ∀ d ∈ s, mark d = false)
    (hc : mark c = true) : splitWhere mark (s ++ c :: rest) = s :: splitWhere mark rest := by
  induction s with
  | nil => rw [List.nil_append, splitWhere, if_pos hc]
  | cons d s ih =>
    rw [List.cons_append, splitWhere, h d List.mem_cons_self,
      ih fun e he ↦ h e (List.mem_cons_of_mem d he)]
    rfl

theorem splitWhere_unmarked {a s piece : List α} {pieces : List (List α)}
    (h : ∀ d ∈ a, mark d = false) (hs : splitWhere mark s = piece :: pieces) :
    splitWhere mark (a ++ s) = (a ++ piece) :: pieces := by
  induction a with
  | nil => exact hs
  | cons d a ih =>
    rw [List.cons_append, splitWhere, h d List.mem_cons_self,
      ih fun e he ↦ h e (List.mem_cons_of_mem d he)]
    rfl

theorem mem_of_mem_splitWhere {s piece : List α} (h : piece ∈ splitWhere mark s) {c : α}
    (hc : c ∈ piece) : c ∈ s ∧ mark c = false := by
  induction s generalizing piece with
  | nil =>
    rw [splitWhere, List.mem_singleton] at h
    rw [h] at hc
    cases hc
  | cons d s ih =>
    rw [splitWhere] at h
    split at h
    · rcases List.mem_cons.1 h with rfl | h
      · cases hc
      · exact ⟨List.mem_cons_of_mem d (ih h hc).1, (ih h hc).2⟩
    · rename_i hd
      have hd : mark d = false := by simpa using hd
      cases hs : splitWhere mark s with
      | nil =>
        rw [hs] at h
        rw [List.mem_singleton.1 h, List.mem_singleton] at hc
        exact ⟨hc ▸ List.mem_cons_self, hc ▸ hd⟩
      | cons first pieces =>
        rw [hs] at h ih
        rcases List.mem_cons.1 h with rfl | h
        · rcases List.mem_cons.1 hc with rfl | hc
          · exact ⟨List.mem_cons_self, hd⟩
          · exact ⟨List.mem_cons_of_mem d (ih List.mem_cons_self hc).1,
              (ih List.mem_cons_self hc).2⟩
        · have hm := ih (List.mem_cons_of_mem first h) hc
          exact ⟨List.mem_cons_of_mem d hm.1, hm.2⟩

theorem splitWhere_intercalate {c : α} {pieces : List (List α)} (hc : mark c = true)
    (hp : ∀ s ∈ pieces, ∀ d ∈ s, mark d = false) (hn : pieces ≠ []) :
    splitWhere mark (List.intercalate [c] pieces) = pieces := by
  induction pieces with
  | nil => exact absurd rfl hn
  | cons s rest ih =>
    have hs := hp s List.mem_cons_self
    cases rest with
    | nil => rw [List.intercalate_singleton, splitWhere_of_none hs]
    | cons t rest =>
      rw [List.intercalate_cons_cons, List.append_assoc, List.singleton_append,
        splitWhere_append hs hc,
        ih (fun u hu ↦ hp u (List.mem_cons_of_mem s hu)) (List.cons_ne_nil t rest)]

theorem mem_intercalate {between : List α} {pieces : List (List α)} {c : α}
    (h : c ∈ List.intercalate between pieces) : c ∈ between ∨ ∃ s ∈ pieces, c ∈ s := by
  induction pieces with
  | nil => cases h
  | cons s rest ih =>
    cases rest with
    | nil =>
      rw [List.intercalate_singleton] at h
      exact Or.inr ⟨s, List.mem_singleton_self s, h⟩
    | cons t rest =>
      rw [List.intercalate_cons_cons, List.mem_append, List.mem_append] at h
      rcases h with (h | h) | h
      · exact Or.inr ⟨s, List.mem_cons_self, h⟩
      · exact Or.inl h
      · refine (ih h).imp_right ?_
        rintro ⟨u, hu, hc⟩
        exact ⟨u, List.mem_cons_of_mem s hu, hc⟩

theorem splitWhere_ne_nil (mark : α → Bool) (s : List α) : splitWhere mark s ≠ [] := by
  cases s with
  | nil => exact List.cons_ne_nil _ _
  | cons c s =>
    rw [splitWhere]
    split
    · exact List.cons_ne_nil _ _
    · split <;> exact List.cons_ne_nil _ _

theorem splitWhere_mark (front : List α) {c : α} (rest : List α) (hc : mark c = true) :
    splitWhere mark (front ++ c :: rest) = splitWhere mark front ++ splitWhere mark rest := by
  induction front with
  | nil =>
    rw [List.nil_append, splitWhere.eq_2, if_pos hc]
    rfl
  | cons d front ih =>
    rw [List.cons_append, splitWhere, splitWhere, ih]
    split
    · rfl
    · obtain ⟨piece, pieces, hp⟩ := List.exists_cons_of_ne_nil (splitWhere_ne_nil mark front)
      rw [hp]
      rfl

theorem exists_unmarked_suffix (mark : α → Bool) (a : List α) : ∃ s, (∀ d ∈ s, mark d = false) ∧
    (a = s ∨ ∃ front c, mark c = true ∧ a = front ++ c :: s) := by
  induction a with
  | nil => exact ⟨[], by simp, Or.inl rfl⟩
  | cons d a ih =>
    obtain ⟨s, hs, rfl | ⟨front, c, hc, rfl⟩⟩ := ih
    · cases hd : mark d with
      | true => exact ⟨a, hs, Or.inr ⟨[], d, hd, rfl⟩⟩
      | false => exact ⟨d :: a, List.forall_mem_cons.2 ⟨hd, hs⟩, Or.inl rfl⟩
    · exact ⟨s, hs, Or.inr ⟨d :: front, c, hc, rfl⟩⟩

theorem getLast?_splitWhere (a : List α) {b : List α} (hb : ∀ d ∈ b, mark d = false) :
    ∃ s, s <:+ a ∧ (∀ d ∈ s, mark d = false) ∧
      (splitWhere mark (a ++ b)).getLast? = some (s ++ b) := by
  obtain ⟨s, hs, ha⟩ := exists_unmarked_suffix mark a
  have hsb : splitWhere mark (s ++ b) = [s ++ b] :=
    splitWhere_of_none (List.forall_mem_append.2 ⟨hs, hb⟩)
  rcases ha with rfl | ⟨front, c, hc, rfl⟩
  · exact ⟨a, List.suffix_rfl, hs, by rw [hsb]; rfl⟩
  · refine ⟨s, ⟨front ++ [c], by simp⟩, hs, ?_⟩
    rw [List.append_assoc, List.cons_append, splitWhere_mark front _ hc, hsb, List.getLast?_concat]

theorem cutAt?_append [BEq α] [LawfulBEq α] {c : α} {front : List α} (h : c ∉ front)
    (rest : List α) : cutAt? c (front ++ c :: rest) = some (front, rest) := by
  induction front with
  | nil => rw [List.nil_append, cutAt?, if_pos (beq_self_eq_true c)]
  | cons d front ih =>
    have hd : ¬(d == c) = true := by
      intro hd
      exact h (List.mem_cons.2 (Or.inl (beq_iff_eq.1 hd).symm))
    rw [List.cons_append, cutAt?, if_neg hd, ih fun hc ↦ h (List.mem_cons_of_mem d hc)]
    rfl

end TypedLoader.Text
