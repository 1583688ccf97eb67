import TypedLoader.Proofs.Cache.Key
import TypedLoader.Proofs.Cache.Output
import TypedLoader.Proofs.Disk.Ways

namespace TypedLoader

namespace CacheKey

def shelf (key : CacheKey) : String := (key.digits.take 2).toString

namespace IsHash

variable {key : CacheKey}

theorem notMem (h : key.IsHash) {c : Char} (hc : Text.hexDigit? c = none) :
    c ∉ key.digits.toList := by
  intro hmem
  have hsome := h.isSome c hmem
  rw [hc] at hsome
  cases hsome

theorem plain (h : key.IsHash) : key.Plain := h.notMem (by decide)

theorem toList_shelf (key : CacheKey) : key.shelf.toList = key.digits.toList.take 2 := by
  simp only [shelf, String.Slice.toString_eq, String.toList_copy_take]

theorem isName_shelf (h : key.IsHash) : Path.IsName key.shelf := by
  have hmem (c : Char) (hc : Text.hexDigit? c = none) : c ∉ key.shelf.toList := by
    rw [toList_shelf]
    exact fun hm ↦ h.notMem hc (List.mem_of_mem_take hm)
  have hdot : '.' ∉ key.shelf.toList := hmem '.' (by decide)
  refine ⟨fun he ↦ ?_, fun he ↦ hdot (by simp [he]), fun he ↦ hdot (by simp [he]),
    hmem '/' (by decide)⟩
  have hlength := congrArg List.length he
  rw [toList_shelf, List.length_take, h.length_eq] at hlength
  cases hlength

theorem isName_append (h : key.IsHash) (ending : String) (hslash : '/' ∉ ending.toList) :
    Path.IsName (key.digits ++ ending) := by
  have hlength : 64 ≤ (key.digits ++ ending).toList.length := by
    rw [String.toList_append, List.length_append, h.length_eq]
    exact Nat.le_add_right ..
  have hne (s : List Char) (hs : s.length < 64) : (key.digits ++ ending).toList ≠ s := by
    rintro rfl
    omega
  refine ⟨hne _ (by decide), hne _ (by decide), hne _ (by decide), ?_⟩
  rw [String.toList_append, List.mem_append, not_or]
  exact ⟨h.plain, hslash⟩

end IsHash

end CacheKey

namespace OutputCache

variable {c : OutputCache} {d : Disk} {key key' : CacheKey} {o : CachedOutput} {q : Path}

/-- The file that an entry is written to before it is moved to its place. -/
def besidePath (c : OutputCache) (key : CacheKey) : Path :=
  (c.entryPath key).withExtension "partial"

def front (c : OutputCache) (key : CacheKey) : List Component :=
  c.directory.bodyComponents ++ [.name key.shelf]

theorem endsIn_shelf (hc : c.directory.isAbsolute = true) (h : key.IsHash) :
    (c.directory.join ⟨key.shelf⟩).EndsIn c.directory.bodyComponents key.shelf :=
  Path.endsIn_join hc h.isName_shelf

theorem endsIn_entryPath (hc : c.directory.isAbsolute = true) (h : key.IsHash) :
    (c.entryPath key).EndsIn (c.front key) (key.digits ++ ".json.gz") := by
  have hshelf := endsIn_shelf hc h
  have hentry := Path.endsIn_join hshelf.isAbsolute (h.isName_append ".json.gz" (by decide))
  rwa [hshelf.bodyComponents] at hentry

theorem splitName_entry (key : CacheKey) :
    Path.splitName (key.digits ++ ".json.gz") = (key.digits ++ ".json", some "gz") := by
  have hback : (key.digits ++ ".json.gz").toList.reverse =
      ['z', 'g'] ++ '.' :: ("nosj.".toList ++ key.digits.toList.reverse) := by
    rw [String.toList_append, List.reverse_append]
    rfl
  have hstem : ("nosj.".toList ++ key.digits.toList.reverse).reverse =
      (key.digits ++ ".json").toList := by
    rw [List.reverse_append, List.reverse_reverse, String.toList_append]
    rfl
  have hnotMem : '.' ∉ ['z', 'g'] := by decide
  have hcut := Text.cutAt?_append hnotMem ("nosj.".toList ++ key.digits.toList.reverse)
  rw [Path.splitName]
  simp only [hback, hcut]
  split
  · rename_i he
    cases he
  · rename_i he
    cases he
  · rename_i he
    cases he
    rw [hstem, String.ofList_toList]
    rfl

theorem endsIn_besidePath (hc : c.directory.isAbsolute = true) (h : key.IsHash) :
    (c.besidePath key).EndsIn (c.front key) (key.digits ++ ".json.partial") := by
  have hname : (Path.splitName (key.digits ++ ".json.gz")).1 ++
      (if "partial".isEmpty then "" else "." ++ "partial") = key.digits ++ ".json.partial" := by
    rw [splitName_entry, String.append_assoc]
    rfl
  have hbeside := (endsIn_entryPath hc h).withExtension "partial"
    (hname ▸ h.isName_append ".json.partial" (by decide))
  rwa [hname] at hbeside

theorem entryPath_ne_beside (h : key.IsHash) (h' : key'.IsHash) :
    (c.entryPath key).normalize ≠ (c.besidePath key').normalize :=
  entryPath_ne_partial h.plain h'.plain

theorem ne_shelf (hc : c.directory.isAbsolute = true) (h : key'.IsHash) {p : Path} {name : String}
    (hp : p.EndsIn (c.front key) name) :
    p.normalize ≠ (c.directory.join ⟨key'.shelf⟩).normalize := by
  intro he
  have hnames := congrArg (fun p : Path ↦ p.names.length) he
  simp only [Path.names_normalize] at hnames
  rw [hp.names, (endsIn_shelf hc h).names, front, Path.walk_append] at hnames
  simp [Path.walk] at hnames

theorem isAbsolute_entryPath (h : key.IsHash) :
    (c.entryPath key).isAbsolute = c.directory.isAbsolute := by
  have hname := h.isName_append ".json.gz" (by decide)
  rw [entryPath, Path.isAbsolute_join hname.isAbsolute]
  exact Path.isAbsolute_join h.isName_shelf.isAbsolute

theorem get?_eq_some (h : key.IsHash) : c.get? d key = some o ↔
    c.directory.isAbsolute = true ∧ d.Way [] (c.front key) ∧
      ∃ bytes, d.at? (c.entryPath key).normalize = some bytes ∧
        CachedOutput.decode? bytes = some o := by
  constructor
  · intro hget
    unfold get? at hget
    split at hget
    · rename_i bytes hbytes
      have hc : c.directory.isAbsolute = true := by
        rw [← isAbsolute_entryPath h]
        cases hlocate : d.locate (c.entryPath key) with
        | error e =>
          rw [Disk.readBytes, hlocate] at hbytes
          cases hbytes
        | ok q => exact (Disk.locate_eq_ok.1 hlocate).1
      obtain ⟨hway, hat⟩ := (Disk.readBytes_eq_ok (endsIn_entryPath hc h)).1 hbytes
      exact ⟨hc, hway, bytes, hat, hget⟩
    · cases hget
  · rintro ⟨hc, hway, bytes, hat, hdecode⟩
    have hread := (Disk.readBytes_eq_ok (endsIn_entryPath hc h)).2 ⟨hway, hat⟩
    unfold get?
    rw [hread]
    exact hdecode

theorem get?_eq_none (h : ∀ bytes, d.at? (c.entryPath key).normalize = some bytes →
    CachedOutput.decode? bytes = none) : c.get? d key = none := by
  unfold get?
  split
  · rename_i bytes hbytes
    exact h bytes (Disk.at?_of_readBytes hbytes)
  · rfl

/-- The disk after the directories of an entry have been made, as far as they could be. -/
def prepared (c : OutputCache) (d : Disk) (key : CacheKey) : Bool × Disk :=
  d.makeDirectories ((c.entryPath key).parent?.getD ⟨""⟩)

/-- An output is put by writing it beside its place and then in its place, on a disk with the
directories of the entry. -/
theorem put_cases (c : OutputCache) (d : Disk) (key : CacheKey) (o : CachedOutput) :
    c.put d key o = (false, (c.prepared d key).2) ∨
    (∃ written, (c.prepared d key).2.write (c.besidePath key) o.encode = some written ∧
      c.put d key o = (false, written)) ∨
    ∃ written stored, (c.prepared d key).2.write (c.besidePath key) o.encode = some written ∧
      (written.erase (c.besidePath key).normalize).write (c.entryPath key) o.encode = some stored ∧
        c.put d key o = (true, stored) := by
  unfold put prepared besidePath
  dsimp only
  cases d.makeDirectories ((c.entryPath key).parent?.getD ⟨""⟩) with
  | mk ready made =>
    cases ready with
    | false => exact Or.inl rfl
    | true =>
      dsimp only
      cases hwritten : made.write ((c.entryPath key).withExtension "partial") o.encode with
      | none => exact Or.inl rfl
      | some written =>
        dsimp only
        rw [Disk.move, Disk.at?_of_write hwritten, Option.bind_some]
        cases hstored : (written.erase ((c.entryPath key).withExtension "partial").normalize).write
            (c.entryPath key) o.encode with
        | none => exact Or.inr (Or.inl ⟨written, rfl, rfl⟩)
        | some stored => exact Or.inr (Or.inr ⟨written, stored, rfl, hstored, rfl⟩)

theorem put_of_written {written stored : Disk} (hready : (c.prepared d key).1 = true)
    (hwritten : (c.prepared d key).2.write (c.besidePath key) o.encode = some written)
    (hstored : (written.erase (c.besidePath key).normalize).write (c.entryPath key) o.encode =
      some stored) : c.put d key o = (true, stored) := by
  unfold prepared at hready
  unfold prepared besidePath at hwritten
  unfold besidePath at hstored
  unfold put
  dsimp only
  cases hmade : d.makeDirectories ((c.entryPath key).parent?.getD ⟨""⟩) with
  | mk ready made =>
    rw [hmade] at hready hwritten
    dsimp only at hready hwritten
    subst hready
    dsimp only
    rw [hwritten]
    dsimp only
    rw [Disk.move, Disk.at?_of_write hwritten, Option.bind_some, hstored]

theorem prepared_eq_makeWay (hc : c.directory.isAbsolute = true) (h : key.IsHash) :
    c.prepared d key = d.makeWay [] (c.front key) := by
  obtain ⟨q, hparent, hq, hfront⟩ := (endsIn_entryPath hc h).parent?
  have hcomponents : q.components = .root :: c.front key := by
    rw [Path.components, hq, if_pos rfl, hfront]
  rw [prepared, hparent, Option.getD_some, Disk.makeDirectories, hq, if_pos rfl, hcomponents,
    Disk.makeWay_root]

theorem way_prepared (hc : c.directory.isAbsolute = true) (h : key.IsHash)
    (hready : (c.prepared d key).1 = true) : (c.prepared d key).2.Way [] (c.front key) := by
  rw [prepared_eq_makeWay hc h] at hready ⊢
  refine Disk.way_makeWay (fun outer houter ↦ ?_) hready
  obtain rfl := List.suffix_nil.1 houter
  rfl

theorem at?_prepared (c : OutputCache) (d : Disk) (key : CacheKey) (q : Path) :
    (c.prepared d key).2.at? q = d.at? q := by
  rw [Disk.at?, prepared, Disk.files_makeDirectories]
  rfl

theorem isDirectoryAt_put (c : OutputCache) (d : Disk) (key : CacheKey) (o : CachedOutput)
    (q : Path) : (c.put d key o).2.isDirectoryAt q = (c.prepared d key).2.isDirectoryAt q := by
  apply Disk.isDirectoryAt_congr
  rcases put_cases c d key o with hput | ⟨written, hwritten, hput⟩ |
    ⟨written, stored, hwritten, hstored, hput⟩
  · rw [hput]
  · rw [hput]
    exact (Disk.write_eq_some hwritten).2
  · rw [hput]
    exact (Disk.write_eq_some hstored).2.trans (Disk.write_eq_some hwritten).2

/-- Only the entry and the file beside it are written. -/
theorem at?_put_of_ne (hentry : q ≠ (c.entryPath key).normalize)
    (hbeside : q ≠ (c.besidePath key).normalize) : (c.put d key o).2.at? q = d.at? q := by
  rw [← at?_prepared c d key q]
  rcases put_cases c d key o with hput | ⟨written, hwritten, hput⟩ |
    ⟨written, stored, hwritten, hstored, hput⟩
  · rw [hput]
  · rw [hput, Disk.at?_write_of_ne hwritten hbeside]
  · rw [hput, Disk.at?_write_of_ne hstored hentry, Disk.at?_erase_of_ne _ hbeside,
      Disk.at?_write_of_ne hwritten hbeside]

theorem at?_put_of_failed (h : key.IsHash) (hput : (c.put d key o).1 = false) :
    (c.put d key o).2.at? (c.entryPath key).normalize = d.at? (c.entryPath key).normalize := by
  rw [← at?_prepared c d key]
  rcases put_cases c d key o with he | ⟨written, hwritten, he⟩ | ⟨written, stored, -, -, he⟩
  · rw [he]
  · rw [he, Disk.at?_write_of_ne hwritten (entryPath_ne_beside h h)]
  · rw [he] at hput
    cases hput

theorem get?_of_put (h : key.IsHash) (hput : (c.put d key o).1 = true) :
    c.get? (c.put d key o).2 key = some o := by
  rcases put_cases c d key o with he | ⟨written, -, he⟩ | ⟨written, stored, -, hstored, he⟩
  · rw [he] at hput
    cases hput
  · rw [he] at hput
    cases hput
  · have hc : c.directory.isAbsolute = true := by
      obtain ⟨parent, hparent, hdirectory⟩ := Disk.exists_parent_of_write hstored
      rw [← isAbsolute_entryPath h]
      exact Path.isAbsolute_of_parent? hparent (Disk.isDirectory_iff.1 hdirectory).1
    have hway := Disk.Way.of_write (endsIn_entryPath hc h) hstored
    rw [get?_eq_some h, he]
    refine ⟨hc, hway.mono fun q hq ↦ ?_, _, Disk.at?_of_write hstored, o.decode?_encode⟩
    rwa [Disk.isDirectoryAt_congr (Disk.write_eq_some hstored).2]

theorem at?_put_of_other (h : key.IsHash) (h' : key'.IsHash)
    (hother : (c.put d key' o).1 = true → key' ≠ key) :
    (c.put d key' o).2.at? (c.entryPath key).normalize = d.at? (c.entryPath key).normalize := by
  by_cases hkey : key' = key
  · subst hkey
    exact at?_put_of_failed h (Bool.eq_false_iff.2 fun hput ↦ hother hput rfl)
  · refine at?_put_of_ne (fun he ↦ hkey ?_) (entryPath_ne_beside h h')
    exact (key_of_entryPath h.plain h'.plain he).symm

theorem get?_put_of_other (h : key.IsHash) (h' : key'.IsHash)
    (hother : (c.put d key' o).1 = true → key' ≠ key) {o' : CachedOutput}
    (hget : c.get? d key = some o') : c.get? (c.put d key' o).2 key = some o' := by
  obtain ⟨hc, hway, bytes, hat, hdecode⟩ := (get?_eq_some h).1 hget
  refine (get?_eq_some h).2 ⟨hc, hway.mono fun q hq ↦ ?_, bytes, ?_, hdecode⟩
  · rw [isDirectoryAt_put]
    exact Disk.isDirectoryAt_makeDirectories _ hq
  · rw [at?_put_of_other h h' hother, hat]

end OutputCache

end TypedLoader
