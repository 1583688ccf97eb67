import TypedLoader.Disk

namespace TypedLoader.Disk

variable {d d' : Disk} {p q : Path} {bytes : Bytes}

def All (P : Path → Bytes → Prop) (d : Disk) : Prop := ∀ f ∈ d.files, P f.1 f.2

theorem at?_of_readBytes (h : d.readBytes p = .ok bytes) : d.at? p.normalize = some bytes := by
  unfold readBytes at h
  split at h
  · cases h
  · split at h
    · rename_i found hfound
      obtain rfl := Except.ok.inj h
      exact hfound
    · cases h

theorem mem_files_of_at? (h : d.at? p = some bytes) : (p, bytes) ∈ d.files := by
  obtain ⟨before, after, hfiles, -⟩ := List.lookup_eq_some_iff.1 h
  simp [hfiles]

theorem isDirectoryAt_congr (h : d'.directories = d.directories) (q : Path) :
    d'.isDirectoryAt q = d.isDirectoryAt q := by
  rw [isDirectoryAt, isDirectoryAt, h]

theorem at?_erase_of_ne (d : Disk) (h : q ≠ p) : (d.erase p).at? q = d.at? q := by
  have hlookup (files : List (Path × Bytes)) :
      (files.filter (·.1 != p)).lookup q = files.lookup q := by
    induction files with
    | nil => rfl
    | cons f files ih =>
      obtain ⟨r, content⟩ := f
      by_cases hr : r = p
      · rw [List.filter_cons_of_neg (by simp [hr]), ih, List.lookup_cons,
          beq_eq_false_iff_ne.2 (hr ▸ h)]
      · rw [List.filter_cons_of_pos (by simpa using hr), List.lookup_cons, List.lookup_cons, ih]
  exact hlookup d.files

theorem write_eq_some (h : d.write p bytes = some d') :
    d'.files = (p.normalize, bytes) :: (d.erase p.normalize).files ∧
      d'.directories = d.directories := by
  unfold write at h
  dsimp only at h
  split at h
  · cases h
  · split at h
    · obtain rfl := Option.some.inj h
      exact ⟨rfl, rfl⟩
    · cases h

theorem at?_of_write (h : d.write p bytes = some d') : d'.at? p.normalize = some bytes := by
  rw [at?, (write_eq_some h).1, List.lookup_cons_self]

theorem at?_write_of_ne (h : d.write p bytes = some d') (hq : q ≠ p.normalize) :
    d'.at? q = d.at? q := by
  rw [at?, (write_eq_some h).1, List.lookup_cons, beq_eq_false_iff_ne.2 hq]
  exact d.at?_erase_of_ne hq

theorem files_makeWay (d : Disk) (names : List String) (cs : List Component) :
    (d.makeWay names cs).2.files = d.files := by
  fun_induction makeWay d names cs with
  | case1 => rfl
  | case2 _ _ _ _ _ _ ih => exact ih
  | case3 => rfl
  | case4 _ _ _ _ _ _ _ ih => exact ih
  | case5 _ _ _ ih => exact ih
  | case6 _ _ _ _ _ _ ih => exact ih

theorem files_makeDirectories (d : Disk) (p : Path) : (d.makeDirectories p).2.files = d.files := by
  rw [makeDirectories]
  split
  · exact files_makeWay d [] _
  · rfl

theorem isDirectoryAt_add {r : Path} :
    ({ d with directories := r :: d.directories } : Disk).isDirectoryAt q = true ↔
      q = r ∨ d.isDirectoryAt q = true := by
  simp only [isDirectoryAt, Bool.or_eq_true, List.contains_iff_mem, List.mem_cons]
  exact or_left_comm

theorem isDirectoryAt_makeWay (names : List String) (cs : List Component)
    (h : d.isDirectoryAt q = true) : (d.makeWay names cs).2.isDirectoryAt q = true := by
  fun_induction makeWay d names cs with
  | case1 => exact h
  | case2 _ _ _ _ _ _ ih => exact ih h
  | case3 => exact h
  | case4 _ _ _ _ _ _ _ ih => exact ih (isDirectoryAt_add.2 (Or.inr h))
  | case5 _ _ _ ih => exact ih h
  | case6 _ _ _ _ _ _ ih => exact ih h

theorem isDirectoryAt_makeDirectories (p : Path) (h : d.isDirectoryAt q = true) :
    (d.makeDirectories p).2.isDirectoryAt q = true := by
  rw [makeDirectories]
  split
  · exact isDirectoryAt_makeWay [] _ h
  · exact h

section All

variable {P : Path → Bytes → Prop}

theorem All.erase (h : d.All P) (p : Path) : (d.erase p).All P :=
  fun f hf ↦ h f (List.mem_filter.1 hf).1

theorem All.makeDirectories (h : d.All P) (p : Path) : (d.makeDirectories p).2.All P := by
  rw [All, files_makeDirectories]
  exact h

theorem All.write (h : d.All P) (hp : P p.normalize bytes) (hd : d.write p bytes = some d') :
    d'.All P := by
  rw [All, (write_eq_some hd).1]
  exact List.forall_mem_cons.2 ⟨hp, h.erase _⟩

end All

end TypedLoader.Disk
