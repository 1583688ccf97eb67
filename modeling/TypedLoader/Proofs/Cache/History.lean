import Mathlib.Data.List.Induction
import TypedLoader.Proofs.Cache.Stored

namespace TypedLoader.OutputCache

inductive Call where
  | get (key : CacheKey)
  | put (key : CacheKey) (output : CachedOutput)

def Call.key : Call → CacheKey
  | get key => key
  | put key _ => key

inductive Event where
  | found (key : CacheKey) (output : Option CachedOutput)
  | stored (key : CacheKey) (output : CachedOutput) (done : Bool)

namespace Event

def call : Event → Call
  | found key _ => .get key
  | stored key o _ => .put key o

def stored? (key : CacheKey) : Event → Option CachedOutput
  | stored key' o true => if key' = key then some o else none
  | _ => none

variable {key key' : CacheKey} {o o' : CachedOutput} {done : Bool} {e : Event}

theorem call_eq_get : e.call = .get key ↔ ∃ output, e = found key output := by
  cases e <;> simp [call]

theorem call_eq_put : e.call = .put key o ↔ ∃ done, e = stored key o done := by
  cases e <;> simp [call]

theorem stored?_eq_some :
    (stored key' o done).stored? key = some o' ↔ done = true ∧ key' = key ∧ o = o' := by
  cases done <;> simp [stored?]

theorem stored?_eq_none :
    (stored key' o done).stored? key = none ↔ (done = true → key' ≠ key) := by
  cases done <;> simp [stored?]

end Event

def Call.run (c : OutputCache) (d : Disk) : Call → Event × Disk
  | get key => (.found key (c.get? d key), d)
  | put key o => (.stored key o (c.put d key o).1, (c.put d key o).2)

def history (c : OutputCache) : Disk → List Call → List Event
  | _, [] => []
  | d, call :: rest => (call.run c d).1 :: history c (call.run c d).2 rest

variable {c : OutputCache} {d : Disk} {key key' : CacheKey} {o : CachedOutput}

/-- Nothing stands in the way of an entry: the directory of the cache is there, the directory
of the entry is there or can be made, and no directory is in the place of a file. -/
structure HasRoom (c : OutputCache) (d : Disk) (key : CacheKey) : Prop where
  directory : d.isDirectory c.directory = true
  shelf : d.at? (c.directory.join ⟨key.shelf⟩).normalize = none
  entry : d.isDirectoryAt (c.entryPath key).normalize = false
  beside : d.isDirectoryAt (c.besidePath key).normalize = false

section Preparing

variable (h : key.IsHash) (hdirectory : d.isDirectory c.directory = true)

include h hdirectory

theorem prepared_eq : c.prepared d key =
    d.makeWay (Path.walk [] c.directory.bodyComponents) [.name key.shelf] := by
  obtain ⟨hc, hway⟩ := Disk.isDirectory_iff.1 hdirectory
  rw [prepared_eq_makeWay hc h, front, hway.makeWay_append]

theorem isDirectoryAt_prepared {q : Path} (hq : (c.prepared d key).2.isDirectoryAt q = true) :
    d.isDirectoryAt q = true ∨ q = (c.directory.join ⟨key.shelf⟩).normalize := by
  have hc := (Disk.isDirectory_iff.1 hdirectory).1
  rw [prepared_eq h hdirectory, Disk.makeWay] at hq
  rw [(endsIn_shelf hc h).normalize]
  split at hq
  · exact Or.inl hq
  · split at hq
    · exact Or.inl hq
    · exact (Disk.isDirectoryAt_add.1 hq).symm

theorem prepared_of_room (hshelf : d.at? (c.directory.join ⟨key.shelf⟩).normalize = none) :
    (c.prepared d key).1 = true := by
  have hc := (Disk.isDirectory_iff.1 hdirectory).1
  rw [(endsIn_shelf hc h).normalize] at hshelf
  rw [prepared_eq h hdirectory, Disk.makeWay]
  split
  · rfl
  · rw [Disk.inward, hshelf]
    rfl

end Preparing

theorem hasRoom_of_shallow (h : key.IsHash) (hdirectory : d.isDirectory c.directory = true)
    (hshelf : d.at? (c.directory.join ⟨key.shelf⟩).normalize = none)
    (hdepth : ∀ q ∈ d.directories,
      q.names.length ≤ (Path.walk [] c.directory.bodyComponents).length + 1) :
    c.HasRoom d key := by
  have hc := (Disk.isDirectory_iff.1 hdirectory).1
  have hfree {p : Path} {name : String} (hp : p.EndsIn (c.front key) name) :
      d.isDirectoryAt p.normalize = false := by
    have hlength : p.normalize.names.length =
        (Path.walk [] c.directory.bodyComponents).length + 2 := by
      rw [Path.names_normalize, hp.names, front, Path.walk_append]
      simp [Path.walk]
    rw [Disk.isDirectoryAt, Bool.or_eq_false_iff, beq_eq_false_iff_ne]
    refine ⟨fun he ↦ ?_, Bool.eq_false_iff.2 fun hcontains ↦ ?_⟩
    · rw [he] at hlength
      cases hlength
    · have hshallow := hdepth _ (List.contains_iff_mem.1 hcontains)
      omega
  exact ⟨hdirectory, hshelf, hfree (endsIn_entryPath hc h), hfree (endsIn_besidePath hc h)⟩

theorem HasRoom.isDirectoryAt_put (hroom : c.HasRoom d key) (h' : key'.IsHash) {p : Path}
    {name : String} (hp : p.EndsIn (c.front key) name)
    (hfree : d.isDirectoryAt p.normalize = false) :
    (c.put d key' o).2.isDirectoryAt p.normalize = false := by
  have hc := (Disk.isDirectory_iff.1 hroom.directory).1
  rw [OutputCache.isDirectoryAt_put, Bool.eq_false_iff]
  intro hdirectory
  rcases isDirectoryAt_prepared h' hroom.directory hdirectory with hd | hd
  · rw [hfree] at hd
    cases hd
  · exact ne_shelf hc h' hp hd

theorem HasRoom.put (hroom : c.HasRoom d key) (h : key.IsHash) (h' : key'.IsHash) :
    c.HasRoom (c.put d key' o).2 key := by
  obtain ⟨hc, hway⟩ := Disk.isDirectory_iff.1 hroom.directory
  refine ⟨Disk.isDirectory_iff.2 ⟨hc, hway.mono fun q hq ↦ ?_⟩, ?_,
    hroom.isDirectoryAt_put h' (endsIn_entryPath hc h) hroom.entry,
    hroom.isDirectoryAt_put h' (endsIn_besidePath hc h) hroom.beside⟩
  · rw [OutputCache.isDirectoryAt_put]
    exact Disk.isDirectoryAt_makeDirectories _ hq
  · rw [at?_put_of_ne (ne_shelf hc h (endsIn_entryPath hc h')).symm
      (ne_shelf hc h (endsIn_besidePath hc h')).symm, hroom.shelf]

theorem HasRoom.stored (hroom : c.HasRoom d key) (h : key.IsHash) (o : CachedOutput) :
    (c.put d key o).1 = true := by
  have hc := (Disk.isDirectory_iff.1 hroom.directory).1
  have hready := prepared_of_room h hroom.directory hroom.shelf
  have hfree {p : Path} {name : String} (hp : p.EndsIn (c.front key) name)
      (hd : d.isDirectoryAt p.normalize = false) :
      (c.prepared d key).2.isDirectoryAt p.normalize = false := by
    rw [← OutputCache.isDirectoryAt_put c d key o]
    exact hroom.isDirectoryAt_put h hp hd
  have hway := way_prepared hc h hready
  obtain ⟨written, hwritten⟩ := hway.write (endsIn_besidePath hc h)
    (hfree (endsIn_besidePath hc h) hroom.beside) o.encode
  have hdirectories : (written.erase (c.besidePath key).normalize).directories =
      (c.prepared d key).2.directories := (Disk.write_eq_some hwritten).2
  have hsame := Disk.isDirectoryAt_congr hdirectories
  have hway' := hway.mono fun q hq ↦ (hsame q).trans hq
  obtain ⟨stored, hstored⟩ := hway'.write (endsIn_entryPath hc h)
    ((hsame _).trans (hfree (endsIn_entryPath hc h) hroom.entry)) o.encode
  rw [put_of_written hready hwritten hstored]

def lastStored? (log : List Event) (key : CacheKey) : Option CachedOutput :=
  (log.filterMap (Event.stored? key)).getLast?

theorem lastStored?_concat (log : List Event) (e : Event) (key : CacheKey) :
    lastStored? (log ++ [e]) key = (e.stored? key).or (lastStored? log key) := by
  rw [lastStored?, List.filterMap_append, List.getLast?_append]
  cases he : e.stored? key with
  | none => simp [he, lastStored?]
  | some o => simp [he]

/-- The disk `d` after a history that began with the disk `start`. -/
structure Reflects (c : OutputCache) (start : Disk) (log : List Event) (d : Disk) : Prop where
  stored : ∀ key : CacheKey, key.IsHash → ∀ o, lastStored? log key = some o → c.get? d key = some o
  untouched : ∀ key : CacheKey, key.IsHash → lastStored? log key = none →
    d.at? (c.entryPath key).normalize = start.at? (c.entryPath key).normalize ∧
      ∀ o, c.get? start key = some o → c.get? d key = some o
  room : ∀ key : CacheKey, key.IsHash → c.HasRoom start key → c.HasRoom d key

variable {start : Disk} {log : List Event}

theorem reflects_start (c : OutputCache) (d : Disk) : Reflects c d [] d where
  stored _ _ _ h := by cases h
  untouched _ _ _ := ⟨rfl, fun _ h ↦ h⟩
  room _ _ h := h

theorem Reflects.put (hlog : Reflects c start log d) (h' : key'.IsHash) (o : CachedOutput) :
    Reflects c start (log ++ [.stored key' o (c.put d key' o).1]) (c.put d key' o).2 where
  stored key h last hlast := by
    rw [lastStored?_concat] at hlast
    cases hnew : (Event.stored key' o (c.put d key' o).1).stored? key with
    | some new =>
      rw [hnew] at hlast
      obtain rfl := Option.some.inj hlast
      obtain ⟨hdone, rfl, rfl⟩ := Event.stored?_eq_some.1 hnew
      exact get?_of_put h hdone
    | none =>
      rw [hnew] at hlast
      exact get?_put_of_other h h' (Event.stored?_eq_none.1 hnew) (hlog.stored key h last hlast)
  untouched key h hlast := by
    rw [lastStored?_concat, Option.or_eq_none_iff] at hlast
    have hother := Event.stored?_eq_none.1 hlast.1
    obtain ⟨hat, hget⟩ := hlog.untouched key h hlast.2
    exact ⟨(at?_put_of_other h h' hother).trans hat,
      fun o' ho' ↦ get?_put_of_other h h' hother (hget o' ho')⟩
  room key h hroom := (hlog.room key h hroom).put h h'

theorem Reflects.get (hlog : Reflects c start log d) (key : CacheKey) :
    Reflects c start (log ++ [.found key (c.get? d key)]) d where
  stored key' h o hlast := by
    rw [lastStored?_concat] at hlast
    exact hlog.stored key' h o hlast
  untouched key' h hlast := by
    rw [lastStored?_concat] at hlast
    exact hlog.untouched key' h hlast
  room := hlog.room

theorem Reflects.run (hlog : Reflects c start log d) (call : Call) (hkey : call.key.IsHash) :
    Reflects c start (log ++ [(call.run c d).1]) (call.run c d).2 := by
  cases call with
  | get key => exact hlog.get key
  | put key o =>
    dsimp only [Call.run]
    exact hlog.put hkey o

/-- At every event of a history, the disk is known on which its call was made. -/
theorem Reflects.history (hlog : Reflects c start log d) {calls : List Call}
    (hkeys : ∀ call ∈ calls, call.key.IsHash) {before : List Event} {e : Event} {after : List Event}
    (h : c.history d calls = before ++ e :: after) :
    ∃ d' call, call ∈ calls ∧ Reflects c start (log ++ before) d' ∧ (call.run c d').1 = e := by
  induction calls generalizing d log before with
  | nil =>
    have hne := List.append_ne_nil_of_right_ne_nil before (List.cons_ne_nil e after)
    exact absurd h.symm hne
  | cons call calls ih =>
    obtain ⟨hkey, hkeys⟩ := List.forall_mem_cons.1 hkeys
    cases before with
    | nil =>
      rw [List.append_nil]
      exact ⟨d, call, List.mem_cons_self, hlog, List.head_eq_of_cons_eq h⟩
    | cons first before =>
      obtain ⟨rfl, hrest⟩ := List.cons.inj h
      obtain ⟨d', call', hcall, hd', he⟩ := ih (hlog.run call hkey) hkeys hrest
      rw [List.append_assoc, List.singleton_append] at hd'
      exact ⟨d', call', List.mem_cons_of_mem _ hcall, hd', he⟩

theorem call_run (c : OutputCache) (d : Disk) (call : Call) : (call.run c d).1.call = call := by
  cases call <;> rfl

theorem map_call_history (c : OutputCache) (d : Disk) (calls : List Call) :
    (c.history d calls).map Event.call = calls := by
  induction calls generalizing d with
  | nil => rfl
  | cons call calls ih => rw [history, List.map_cons, call_run, ih]

/-- The cache is a map on the disk, for keys as they are computed. In any row of calls each one is
answered, and under a key the output is found that was put last, whatever happened under other
keys. As long as none has been put, nothing is found where there was no entry or one that cannot
be decoded, and an entry from before that could be read still can. An output can be put wherever
there is room for it. -/
theorem finds_last_stored (c : OutputCache) (d : Disk) (calls : List Call)
    (hkeys : ∀ call ∈ calls, call.key.IsHash) :
    (c.history d calls).map Event.call = calls ∧
    (∀ before key found after, c.history d calls = before ++ .found key found :: after →
      (∀ o, lastStored? before key = some o → found = some o) ∧
      (lastStored? before key = none →
        ((∀ bytes, d.at? (c.entryPath key).normalize = some bytes →
          CachedOutput.decode? bytes = none) → found = none) ∧
        ∀ o, c.get? d key = some o → found = some o)) ∧
    ∀ before key o done after, c.history d calls = before ++ .stored key o done :: after →
      c.HasRoom d key → done = true := by
  refine ⟨map_call_history c d calls, fun before key found after hhistory ↦ ?_,
    fun before key o done after hhistory hroom ↦ ?_⟩
  · obtain ⟨d', call, hcall, hlog, he⟩ := (reflects_start c d).history hkeys hhistory
    have hkey := hkeys call hcall
    cases call with
    | put => cases he
    | get =>
      cases he
      refine ⟨hlog.stored key hkey, fun hnone ↦ ?_⟩
      obtain ⟨hat, hget⟩ := hlog.untouched key hkey hnone
      exact ⟨fun hundecodable ↦ get?_eq_none fun bytes hbytes ↦ hundecodable bytes (hat ▸ hbytes),
        hget⟩
  · obtain ⟨d', call, hcall, hlog, he⟩ := (reflects_start c d).history hkeys hhistory
    have hkey := hkeys call hcall
    cases call with
    | get => cases he
    | put =>
      cases he
      exact (hlog.room key hkey hroom).stored hkey o

/-- Two entries in one directory. One is there before, but cannot be decoded. -/
theorem finds_last_stored_beside_corrupt :
    let key : CacheKey := ⟨String.ofList (List.replicate 64 '0')⟩
    let other : CacheKey := ⟨String.ofList (List.replicate 63 '0' ++ ['1'])⟩
    let c : OutputCache := ⟨⟨"/cache"⟩⟩
    let d : Disk := {
      files := [((c.entryPath other).normalize, [0])]
      directories := [⟨"/cache"⟩, ⟨"/cache/00"⟩] }
    c.history d [.get other, .put key ⟨"a", none⟩, .get other, .put other ⟨"b", none⟩, .get key,
        .get other] =
      [.found other none, .stored key ⟨"a", none⟩ true, .found other none,
        .stored other ⟨"b", none⟩ true, .found key (some ⟨"a", none⟩),
        .found other (some ⟨"b", none⟩)] := by
  intro key other c d
  have hdigits : key.digits.toList = List.replicate 64 '0' := String.toList_ofList
  have hdigits' : other.digits.toList = List.replicate 63 '0' ++ ['1'] := String.toList_ofList
  have hkey : key.IsHash := by
    refine ⟨by rw [hdigits]; rfl, fun ch hch ↦ ?_⟩
    rw [hdigits] at hch
    rw [List.eq_of_mem_replicate hch]
    rfl
  have hother : other.IsHash := by
    refine ⟨by rw [hdigits']; rfl, fun ch hch ↦ ?_⟩
    rw [hdigits', List.mem_append, List.mem_singleton] at hch
    rcases hch with hch | rfl
    · rw [List.eq_of_mem_replicate hch]
      rfl
    · rfl
  have hshelf {k : CacheKey} (hk : k.IsHash) :
      d.at? (c.directory.join ⟨k.shelf⟩).normalize = none := by
    refine List.lookup_eq_none_iff.2 fun f hf ↦ bne_iff_ne.2 ?_
    obtain rfl := List.mem_singleton.1 hf
    have hc : c.directory.isAbsolute = true := by decide
    exact (ne_shelf hc hk (endsIn_entryPath hc hother)).symm
  have hroom {k : CacheKey} (hk : k.IsHash) : c.HasRoom d k :=
    hasRoom_of_shallow hk (by decide) (hshelf hk) (by decide)
  have hcorrupt : ∀ bytes, d.at? (c.entryPath other).normalize = some bytes →
      CachedOutput.decode? bytes = none := by
    intro bytes hbytes
    have hat : d.at? (c.entryPath other).normalize = some [0] := List.lookup_cons_self
    obtain rfl := Option.some.inj (hat.symm.trans hbytes)
    decide
  obtain ⟨hcalls, hfound, hstored⟩ := finds_last_stored c d
    [.get other, .put key ⟨"a", none⟩, .get other, .put other ⟨"b", none⟩, .get key, .get other]
    (by simp [Call.key, hkey, hother])
  generalize c.history d _ = log at hcalls hfound hstored ⊢
  simp only [List.map_eq_cons_iff, List.map_eq_nil_iff, Event.call_eq_get,
    Event.call_eq_put] at hcalls
  obtain ⟨_, _, rfl, ⟨first, rfl⟩, _, _, rfl, ⟨done, rfl⟩, _, _, rfl, ⟨second, rfl⟩, _, _, rfl,
    ⟨done', rfl⟩, _, _, rfl, ⟨third, rfl⟩, _, _, rfl, ⟨fourth, rfl⟩, rfl⟩ := hcalls
  obtain rfl : first = none := ((hfound [] _ _ _ rfl).2 rfl).1 hcorrupt
  obtain rfl : done = true := hstored [_] _ _ _ _ rfl (hroom hkey)
  obtain rfl : second = none := ((hfound [_, _] _ _ _ rfl).2 (by decide)).1 hcorrupt
  obtain rfl : done' = true := hstored [_, _, _] _ _ _ _ rfl (hroom hother)
  obtain rfl := (hfound [_, _, _, _] _ _ _ rfl).1 ⟨"a", none⟩ (by decide)
  obtain rfl := (hfound [_, _, _, _, _] _ _ _ rfl).1 ⟨"b", none⟩ (by decide)
  rfl

end TypedLoader.OutputCache
