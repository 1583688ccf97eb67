import TypedLoader.Cache.Output
import TypedLoader.Proofs.Disk.Changes
import TypedLoader.Proofs.Gzip
import TypedLoader.Proofs.Json.RoundTrip
import TypedLoader.Proofs.Path.LastName
import TypedLoader.Proofs.Text.Utf8

namespace TypedLoader

namespace CachedOutput

theorem portable_toJson (o : CachedOutput) : o.toJson.Portable Json.maxDepth := by
  have hdepth : Json.maxDepth = 126 + 1 := rfl
  rw [hdepth, toJson, Json.Portable.obj_iff]
  cases o.sourceMap <;> simp [Json.ofOption]

theorem ofDraft?_draft (o : CachedOutput) : ofDraft? o.toJson.draft = some o := by
  have hstring (s : String) : (Json.str s).draft.value? = some (.str s) := Json.within?_draft (.str s)
  have hnull : Json.null.draft.value? = some .null := rfl
  obtain ⟨text, sourceMap⟩ := o
  rw [ofDraft?, toJson, Json.fields?_draft]
  cases sourceMap <;>
    simp [Json.slots?, Json.ofOption, hstring, hnull, Json.string?, Json.option?]

theorem decode?_encode (o : CachedOutput) : decode? o.encode = some o := by
  unfold decode? encode
  simp only [Gzip.decode?_encode, Option.bind_eq_bind, Option.bind_some, Text.decode?_encode,
    Json.ofText?_draft o.portable_toJson, ofDraft?_draft]

end CachedOutput

namespace CacheKey

theorem slash_notMem_hex (bytes : List UInt8) : '/' ∉ (Text.hex bytes).toList := by
  have hdigit : ∀ n < 16, Text.hexChar n ≠ '/' := by decide
  have hbyte (b : UInt8) : '/' ∉ Text.hexByte b := by
    have hb := b.toNat_lt
    have hhigh := hdigit (b.toNat / 16) (by omega)
    have hlow := hdigit (b.toNat % 16) (by omega)
    rw [Text.hexByte, List.mem_cons, List.mem_singleton, not_or]
    exact ⟨hhigh.symm, hlow.symm⟩
  rw [Text.hex, String.toList_ofList, List.mem_flatMap]
  rintro ⟨b, -, hb⟩
  exact hbyte b hb

def Plain (key : CacheKey) : Prop := '/' ∉ key.digits.toList

theorem plain_compute (source identifier query : String) : (compute source identifier query).Plain :=
  slash_notMem_hex _

end CacheKey

namespace OutputCache

variable {c : OutputCache} {d : Disk} {key : CacheKey}

theorem fileName?_entryPath (c : OutputCache) (h : key.Plain) :
    (c.entryPath key).fileName? = some (key.digits ++ ".json.gz") := by
  have hlast : (key.digits ++ ".json.gz").toList.getLast? = some 'z' := by
    rw [String.toList_append, List.getLast?_append]
    rfl
  refine Path.fileName?_join _ ?_ hlast (by decide)
  rw [String.toList_append, List.mem_append, not_or]
  exact ⟨h, by decide⟩

theorem key_of_entryPath {c' : OutputCache} {key' : CacheKey} (h : key.Plain) (h' : key'.Plain)
    (he : (c.entryPath key).normalize = (c'.entryPath key').normalize) : key = key' := by
  have hname := congrArg (fun p : Path ↦ p.names.getLast?) he
  simp only [Path.names_normalize] at hname
  rw [Path.getLast?_names (fileName?_entryPath c h),
    Path.getLast?_names (fileName?_entryPath c' h')] at hname
  obtain ⟨digits⟩ := key
  obtain ⟨digits'⟩ := key'
  have hdigits : digits.toList = digits'.toList := by
    have htext := congrArg String.toList (Option.some.inj hname)
    rw [String.toList_append, String.toList_append] at htext
    exact List.append_cancel_right htext
  exact congrArg CacheKey.mk (String.toList_inj.1 hdigits)

/-- The file beside an entry is no entry. -/
theorem entryPath_ne_partial {c' : OutputCache} {key' : CacheKey} (h : key.Plain) (h' : key'.Plain) :
    (c.entryPath key).normalize ≠ ((c'.entryPath key').withExtension "partial").normalize := by
  intro he
  obtain ⟨stem, hstem⟩ := Path.fileName?_withExtension (p := c'.entryPath key')
    (by rw [fileName?_entryPath c' h']; rfl) "partial" (c := 'l') (by decide) rfl
    (by decide)
  have hname := congrArg (fun p : Path ↦ p.names.getLast?) he
  simp only [Path.names_normalize] at hname
  rw [Path.getLast?_names (fileName?_entryPath c h), Path.getLast?_names hstem] at hname
  have hlast := congrArg (fun s : String ↦ s.toList.getLast?) (Option.some.inj hname)
  have hz : (".json.gz".toList).getLast? = some 'z' := rfl
  have hl : (("." ++ "partial").toList).getLast? = some 'l' := rfl
  simp only [String.toList_append (s := key.digits), String.toList_append (s := stem),
    List.getLast?_append, hz, hl] at hlast
  cases hlast

def Noted (noted : CacheKey → CachedOutput → Prop) (d : Disk) : Prop :=
  d.All fun p bytes ↦ ∀ o, CachedOutput.decode? bytes = some o → ∀ (c : OutputCache) (key : CacheKey),
    key.Plain → p = (c.entryPath key).normalize → noted key o

variable {noted : CacheKey → CachedOutput → Prop}

theorem noted_of_get? (hd : Noted noted d) (h : key.Plain) {o : CachedOutput}
    (ho : c.get? d key = some o) : noted key o := by
  unfold get? at ho
  split at ho
  · rename_i bytes hbytes
    have hfile := Disk.mem_files_of_at? (Disk.at?_of_readBytes hbytes)
    exact hd ((c.entryPath key).normalize, bytes) hfile o ho c key h (Eq.refl _)
  · cases ho

theorem Noted.mono {noted' : CacheKey → CachedOutput → Prop} (hd : Noted noted d)
    (h : ∀ key o, noted key o → noted' key o) : Noted noted' d :=
  fun f hf o ho c key hkey he ↦ h key o (hd f hf o ho c key hkey he)

/-- Nothing but the new output can be read in addition, also when it could not be
put in its place. -/
theorem Noted.put (hd : Noted noted d) (h : key.Plain) {o : CachedOutput} (ho : noted key o)
    (c : OutputCache) : Noted noted (c.put d key o).2 := by
  have hentry : ∀ o', CachedOutput.decode? o.encode = some o' → ∀ (c' : OutputCache) (key' : CacheKey),
      key'.Plain → (c.entryPath key).normalize = (c'.entryPath key').normalize → noted key' o' := by
    intro o' ho' c' key' h' he
    obtain rfl := key_of_entryPath h h' he
    rw [CachedOutput.decode?_encode] at ho'
    exact Option.some.inj ho' ▸ ho
  have hpartial : ∀ o', CachedOutput.decode? o.encode = some o' → ∀ (c' : OutputCache)
      (key' : CacheKey), key'.Plain →
        ((c.entryPath key).withExtension "partial").normalize = (c'.entryPath key').normalize →
          noted key' o' :=
    fun _ _ _ _ h' he ↦ absurd he.symm (entryPath_ne_partial h' h)
  have hmade := hd.makeDirectories ((c.entryPath key).parent?.getD ⟨""⟩)
  unfold OutputCache.put
  simp only
  split
  · rename_i made he
    exact he ▸ hmade
  · rename_i made he
    have hd : made.All _ := he ▸ hmade
    split
    · exact hd
    · rename_i written hwritten
      have hd := Disk.All.write hd hpartial hwritten
      split
      · exact hd
      · rename_i moved hmoved
        rw [Disk.move, Disk.at?_of_write hwritten, Option.bind_some] at hmoved
        exact Disk.All.write (hd.erase _) hentry hmoved

end OutputCache

end TypedLoader
