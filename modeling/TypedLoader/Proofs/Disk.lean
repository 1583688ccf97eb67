import TypedLoader.Disk
import TypedLoader.Proofs.Outcome
import TypedLoader.Proofs.Path.Normal

namespace TypedLoader.Disk

open TypedLoader.Path (IsName isVoid component walk)

variable {d : Disk} {p q : Path} {names : List String}

/-- Something is at the place with these names, innermost first, and around it are
directories. -/
inductive Stands (d : Disk) : List String → Prop
  | root : Stands d []
  | inside {s : String} {names : List String} (houter : Stands d names)
      (hdirectory : d.isDirectoryAt (inward names) = true)
      (hthere : (d.isDirectoryAt (inward (s :: names)) ||
        (d.at? (inward (s :: names))).isSome) = true) : Stands d (s :: names)

theorem Stands.tail (h : Stands d names) : Stands d names.tail := by
  cases h with
  | root => exact .root
  | inside houter _ _ => exact houter

theorem Stands.of_append {inner : List String} (h : Stands d (inner ++ names)) :
    Stands d names := by
  induction inner with
  | nil => exact h
  | cons s inner ih => exact ih h.tail

theorem stands_of_follow {segments : List (List Char)} (hnames : Stands d names)
    (h : d.follow names segments = .ok ()) :
    Stands d (walk names ((segments.filter (!isVoid ·)).map component)) := by
  induction segments generalizing names with
  | nil => exact hnames
  | cons s segments ih =>
    rw [follow] at h
    split at h
    · cases h
    · rename_i hdirectory
      have hdirectory : d.isDirectoryAt (inward names) = true := by simpa using hdirectory
      split at h
      · rename_i hvoid
        rw [List.filter_cons_of_neg (by simpa using hvoid)]
        exact ih hnames h
      · rename_i hvoid
        rw [List.filter_cons_of_pos (by simpa using hvoid), List.map_cons, component]
        split at h
        · rename_i hup
          rw [if_pos hup]
          exact ih hnames.tail h
        · rename_i hup
          rw [if_neg hup]
          dsimp only at h
          split at h
          · rename_i hthere
            exact ih (.inside hnames hdirectory hthere) h
          · cases h

theorem Stands.follow {inner : List String} (hinner : ∀ s ∈ inner, IsName s)
    (h : Stands d (inner.reverse ++ names)) :
    d.follow names (inner.map String.toList) = .ok () := by
  induction inner generalizing names with
  | nil => rfl
  | cons s inner ih =>
    obtain ⟨hs, hinner⟩ := List.forall_mem_cons.1 hinner
    rw [List.reverse_cons, List.append_assoc, List.singleton_append] at h
    have hvoid : isVoid s.toList = false := by simp [isVoid, hs.ne_nil, hs.ne_here]
    cases h.of_append with
    | inside _ hdirectory hthere =>
      rw [List.map_cons, Disk.follow, hdirectory, hvoid, if_neg hs.ne_up, String.ofList_toList]
      dsimp only
      rw [hthere]
      exact ih hinner h

theorem locate_eq_ok : d.locate p = .ok q ↔
    p.isAbsolute = true ∧ d.follow [] p.segments = .ok () ∧ q = p.normalize := by
  rw [locate]
  constructor
  · intro h
    split at h
    · rename_i habsolute
      obtain ⟨⟨⟩, hfollow, rfl⟩ := map_eq_ok h
      exact ⟨habsolute, hfollow, rfl⟩
    · cases h
  · rintro ⟨habsolute, hfollow, rfl⟩
    rw [if_pos habsolute, hfollow]
    rfl

/-- A place leads to itself. -/
theorem locate_of_locate (h : d.locate p = .ok q) : d.locate q = .ok q := by
  obtain ⟨habsolute, hfollow, rfl⟩ := locate_eq_ok.1 h
  refine locate_eq_ok.2 ⟨by rw [Path.isAbsolute_normalize, habsolute], ?_,
    p.normalize_normalize.symm⟩
  have hnames : ∀ s ∈ p.names, IsName s := fun s hs ↦ Path.isName_of_mem_names hs
  have hstands : Stands d (p.names.reverse ++ []) := by
    have hbody := stands_of_follow .root hfollow
    rw [List.append_nil, Path.names, List.reverse_reverse, Path.components, if_pos habsolute]
    exact hbody
  by_cases hroot : p.names = []
  · rw [Path.normalize, hroot, habsolute]
    rfl
  · rw [Path.normalize, Path.segments_ofNames hnames hroot]
    exact hstands.follow hnames

theorem locate_of_readText {text : String} (h : d.readText p = .ok text) :
    ∃ q, d.locate p = .ok q := by
  unfold readText readBytes at h
  cases hlocate : d.locate p with
  | error e =>
    rw [hlocate] at h
    cases h
  | ok q => exact ⟨q, rfl⟩

end TypedLoader.Disk
