import TypedLoader.Json.Basic
import TypedLoader.Proofs.Path.Canonical
import TypedLoader.Proofs.Path.Declared
import TypedLoader.Proofs.Text.Mended

namespace TypedLoader

/-- A path of bytes. Each character of its spelling stands for a byte, so that it is taken apart
as a path of text is. -/
@[ext] structure RawPath where
  spelling : Path
  isByte : ∀ c ∈ spelling.chars, c.toNat < 256

namespace RawPath

def byteChar (b : UInt8) : Char := Char.ofNat b.toNat

theorem toNat_byteChar (b : UInt8) : (byteChar b).toNat = b.toNat := by
  rw [byteChar, Text.toNat_ofNat, if_pos (Or.inl (Nat.lt_trans b.toNat_lt (by decide)))]

theorem toUInt8_byteChar (b : UInt8) : (byteChar b).toNat.toUInt8 = b := by
  rw [toNat_byteChar]
  exact UInt8.ofNat_toNat

def ofBytes (bytes : Bytes) : RawPath where
  spelling := .ofChars (bytes.map byteChar)
  isByte c hc := by
    rw [Path.chars, Path.ofChars, String.toList_ofList] at hc
    obtain ⟨b, -, rfl⟩ := List.mem_map.1 hc
    rw [toNat_byteChar]
    exact b.toNat_lt

theorem chars_ofBytes (bytes : Bytes) : (ofBytes bytes).spelling.chars = bytes.map byteChar :=
  String.toList_ofList

def bytes (p : RawPath) : Bytes := p.spelling.chars.map fun c ↦ c.toNat.toUInt8

theorem bytes_ofBytes (bytes : Bytes) : (ofBytes bytes).bytes = bytes := by
  rw [RawPath.bytes, chars_ofBytes, List.map_map]
  exact (List.map_congr_left fun b _ ↦ toUInt8_byteChar b).trans (List.map_id bytes)

theorem ofBytes_bytes (p : RawPath) : ofBytes p.bytes = p := by
  have hchars : (ofBytes p.bytes).spelling.chars = p.spelling.chars := by
    rw [chars_ofBytes, bytes, List.map_map]
    refine (List.map_congr_left fun c hc ↦ ?_).trans (List.map_id _)
    rw [Function.comp_apply, byteChar, Nat.toUInt8, Text.toNat_ofNat_of_lt (p.isByte c hc)]
    exact Char.ofNat_toNat c
  exact RawPath.ext (congrArg Path.mk (String.toList_inj.1 hchars))

def ofText (s : String) : RawPath := ofBytes (Text.encode s)

def text? (p : RawPath) : Option String := Text.decode? p.bytes

theorem text?_ofText (s : String) : (ofText s).text? = some s := by
  rw [text?, ofText, bytes_ofBytes, Text.decode?_encode]

theorem text?_eq_some {p : RawPath} {s : String} : p.text? = some s ↔ ofText s = p := by
  refine ⟨fun h ↦ ?_, fun h ↦ h ▸ text?_ofText s⟩
  rw [ofText, Text.decode?_eq_some.1 h, ofBytes_bytes]

def isAbsolute (p : RawPath) : Bool := p.spelling.isAbsolute

def IsPlain (p : RawPath) : Prop := p.spelling.IsPlain

instance : DecidablePred IsPlain := fun p ↦ inferInstanceAs (Decidable p.spelling.IsPlain)

def normalize (p : RawPath) : RawPath where
  spelling := p.spelling.normalize
  isByte c hc := (Path.mem_chars_normalize hc).elim (fun h ↦ h ▸ by decide) (p.isByte c)

def join (p q : RawPath) : RawPath where
  spelling := p.spelling.join q.spelling
  isByte c hc := by
    rw [Path.join] at hc
    split at hc
    · exact q.isByte c hc
    · split at hc
      · rw [Path.chars, String.toList_append, List.mem_append] at hc
        exact hc.elim (p.isByte c) (q.isByte c)
      · rw [Path.chars, String.toList_append, String.toList_append, List.mem_append,
          List.mem_append] at hc
        rcases hc with (hc | hc) | hc
        · exact p.isByte c hc
        · obtain rfl := List.mem_singleton.1 hc
          decide
        · exact q.isByte c hc

/-- Bytes that are no text are replaced before a key is made. -/
def key (case : PathCase) (p : RawPath) : String := case.fold (Text.mended p.normalize.bytes)

/-- Only a path that is text can be written as JSON. -/
def toJson? (p : RawPath) : Option Json := p.text?.map .str

def spell (s : List Char) : List Char :=
  s.flatMap fun c ↦ (String.utf8EncodeChar c).map byteChar

theorem spell_append (s t : List Char) : spell (s ++ t) = spell s ++ spell t :=
  List.flatMap_append ..

theorem chars_ofText (s : String) : (ofText s).spelling.chars = spell s.toList := by
  have h : Text.encode s = s.toList.flatMap String.utf8EncodeChar := by
    rw [← Text.encode_ofList, String.ofList_toList]
  rw [ofText, chars_ofBytes, h, List.map_flatMap, spell]

theorem ofText_injective {s t : String} (h : ofText s = ofText t) : s = t := by
  have hs := text?_ofText s
  rw [h, text?_ofText] at hs
  exact (Option.some.inj hs).symm

theorem spell_injective {s t : List Char} (h : spell s = spell t) : s = t := by
  have hchars : (ofText (String.ofList s)).spelling.chars =
      (ofText (String.ofList t)).spelling.chars := by
    rw [chars_ofText, chars_ofText, String.toList_ofList, String.toList_ofList, h]
  have hs : ofText (String.ofList s) = ofText (String.ofList t) :=
    RawPath.ext (congrArg Path.mk (String.toList_inj.1 hchars))
  exact String.ofList_inj.1 (ofText_injective hs)

theorem spell_ascii {c : Char} (h : c.toNat < 128) (s : List Char) : spell (c :: s) = c :: spell s := by
  have hb : byteChar c.toNat.toUInt8 = c := by
    rw [byteChar, Nat.toUInt8, Text.toNat_ofNat_of_lt (Nat.lt_trans h (by decide))]
    exact Char.ofNat_toNat c
  rw [spell, List.flatMap_cons, Text.utf8EncodeChar_of_ascii h, List.map_singleton, hb]
  rfl

/-- A character of ASCII stands only for itself. -/
theorem mem_spell_iff {d : Char} (hd : d.toNat < 128) {s : List Char} : d ∈ spell s ↔ d ∈ s := by
  induction s with
  | nil => rfl
  | cons c s ih =>
    by_cases hc : c.toNat < 128
    · rw [spell_ascii hc, List.mem_cons, List.mem_cons, ih]
    · rw [spell, List.flatMap_cons, List.mem_append, List.mem_cons]
      refine or_congr ⟨fun h ↦ ?_, ?_⟩ ih
      · obtain ⟨b, hb, rfl⟩ := List.mem_map.1 h
        have := Text.le_toNat_of_mem hc hb
        rw [toNat_byteChar] at hd
        omega
      · rintro rfl
        exact absurd hd hc

theorem spell_eq_cons {s rest : List Char} {d : Char} (hd : d.toNat < 128)
    (h : spell s = d :: rest) : ∃ t, s = d :: t ∧ rest = spell t := by
  cases s with
  | nil => cases h
  | cons c t =>
    by_cases hc : c.toNat < 128
    · rw [spell_ascii hc] at h
      obtain ⟨rfl, rfl⟩ := List.cons.inj h
      exact ⟨t, rfl, rfl⟩
    · have hm : d ∈ (String.utf8EncodeChar c).map byteChar := by
        have hne : String.utf8EncodeChar c ≠ [] := String.utf8EncodeChar_ne_nil
        obtain ⟨b, bs, hb⟩ := List.exists_cons_of_ne_nil hne
        rw [spell, List.flatMap_cons, hb, List.map_cons, List.cons_append] at h
        rw [hb, ← (List.cons.inj h).1]
        exact List.mem_cons_self
      obtain ⟨b, hb, rfl⟩ := List.mem_map.1 hm
      have := Text.le_toNat_of_mem hc hb
      rw [toNat_byteChar] at hd
      omega

theorem splitWhere_spell (s : List Char) : Text.splitWhere (· == '/') (spell s) =
    (Text.splitWhere (· == '/') s).map spell := by
  induction s with
  | nil => rfl
  | cons c s ih =>
    by_cases hc : c = '/'
    · subst hc
      rw [spell_ascii (by decide), Text.splitWhere, Text.splitWhere, ih]
      rfl
    · obtain ⟨piece, pieces, hs⟩ := List.exists_cons_of_ne_nil (Text.splitWhere_ne_nil (· == '/') s)
      have hmark : ∀ d ∈ spell [c], (d == '/') = false := by
        intro d hd
        rw [beq_eq_false_iff_ne]
        rintro rfl
        exact hc (List.mem_singleton.1 ((mem_spell_iff (by decide)).1 hd)).symm
      have hchar : ∀ d ∈ [c], (d == '/') = false := by simpa using hc
      rw [hs] at ih
      have hcons : spell (c :: s) = spell [c] ++ spell s := spell_append [c] s
      have hsplit : Text.splitWhere (· == '/') (c :: s) = ([c] ++ piece) :: pieces :=
        Text.splitWhere_unmarked hchar hs
      rw [hcons, Text.splitWhere_unmarked hmark ih, hsplit, List.map_cons, spell_append]

theorem spell_here : spell ['.'] = ['.'] := spell_ascii (by decide) []

theorem spell_up : spell ['.', '.'] = ['.', '.'] := by
  rw [spell_ascii (by decide), spell_here]

theorem spell_eq_iff {s t : List Char} (ht : spell t = t) : spell s = t ↔ s = t :=
  ⟨fun h ↦ spell_injective (h.trans ht.symm), fun h ↦ h ▸ ht⟩

theorem isVoid_spell (s : List Char) : Path.isVoid (spell s) = Path.isVoid s := by
  have hnil : spell s = [] ↔ s = [] := spell_eq_iff rfl
  have hhere : spell s = ['.'] ↔ s = ['.'] := spell_eq_iff spell_here
  rw [Bool.eq_iff_iff, Path.isVoid, Path.isVoid, Bool.or_eq_true, Bool.or_eq_true, beq_iff_eq,
    beq_iff_eq, beq_iff_eq, beq_iff_eq, hnil, hhere]

def spellName (s : String) : String := String.ofList (spell s.toList)

def spellComponent : Component → Component
  | .name s => .name (spellName s)
  | c => c

theorem component_spell (s : List Char) :
    Path.component (spell s) = spellComponent (Path.component s) := by
  rw [Path.component, Path.component]
  by_cases h : s = ['.', '.']
  · rw [if_pos h, if_pos ((spell_eq_iff spell_up).2 h)]
    rfl
  · rw [if_neg h, if_neg (mt (spell_eq_iff spell_up).1 h), spellComponent, spellName,
      String.toList_ofList]

theorem steps_spell (s : List Char) : Path.steps (spell s) = (Path.steps s).map spell := by
  have hvoid : (fun t ↦ !Path.isVoid t) ∘ spell = fun t ↦ !Path.isVoid t :=
    funext fun t ↦ congrArg (!·) (isVoid_spell t)
  rw [Path.steps, Path.steps, splitWhere_spell, List.filter_map, hvoid]

theorem walk_spell (names : List String) (cs : List Component) :
    Path.walk (names.map spellName) (cs.map spellComponent) = (Path.walk names cs).map spellName := by
  induction cs generalizing names with
  | nil => rfl
  | cons c cs ih =>
    cases c with
    | name s => exact ih (s :: names)
    | up =>
      have htail := ih names.tail
      rw [List.map_tail] at htail
      exact htail
    | _ => exact ih names

section Texts

variable (s : String)

theorem isAbsolute_ofText : (ofText s).isAbsolute = (⟨s⟩ : Path).isAbsolute := by
  rw [isAbsolute, Bool.eq_iff_iff, Path.isAbsolute_iff, Path.isAbsolute_iff, chars_ofText]
  constructor
  · rintro ⟨rest, h⟩
    obtain ⟨t, ht, -⟩ := spell_eq_cons (by decide) h
    exact ⟨t, ht⟩
  · rintro ⟨rest, h⟩
    exact ⟨spell rest, (congrArg spell h).trans (spell_ascii (by decide) rest)⟩

theorem startsHere_ofText : (ofText s).spelling.startsHere = (⟨s⟩ : Path).startsHere := by
  rw [Bool.eq_iff_iff, Path.startsHere_iff, Path.startsHere_iff, chars_ofText]
  refine or_congr (spell_eq_iff spell_here) ⟨?_, ?_⟩
  · rintro ⟨rest, h⟩
    obtain ⟨t, ht, hrest⟩ := spell_eq_cons (by decide) h
    obtain ⟨u, rfl, -⟩ := spell_eq_cons (by decide) hrest.symm
    exact ⟨u, ht⟩
  · rintro ⟨rest, h⟩
    refine ⟨spell rest, (congrArg spell h).trans ?_⟩
    rw [spell_ascii (by decide), spell_ascii (by decide)]

theorem body_ofText : (ofText s).spelling.body = spell (⟨s⟩ : Path).body := by
  have hlead : (ofText s).spelling.lead = (⟨s⟩ : Path).lead := by
    have habsolute : (ofText s).spelling.isAbsolute = (⟨s⟩ : Path).isAbsolute := isAbsolute_ofText s
    rw [Path.lead, Path.lead, habsolute, startsHere_ofText]
  have hspell : spell (⟨s⟩ : Path).lead = (⟨s⟩ : Path).lead := by
    rw [Path.lead]
    split
    · exact spell_ascii (by decide) []
    · split
      · exact spell_here
      · rfl
  have hchars : spell s.toList = (⟨s⟩ : Path).lead ++ spell (⟨s⟩ : Path).body := by
    rw [← hspell, ← spell_append, ← Path.chars_eq]
    rfl
  rw [Path.body, hlead, chars_ofText, hchars, List.drop_left]

theorem names_ofText : (ofText s).spelling.names = (⟨s⟩ : Path).names.map spellName := by
  have hbody : (ofText s).spelling.bodyComponents =
      (⟨s⟩ : Path).bodyComponents.map spellComponent := by
    rw [Path.bodyComponents_eq, Path.bodyComponents_eq, body_ofText, steps_spell, List.map_map,
      List.map_map]
    exact List.map_congr_left fun t _ ↦ component_spell t
  have hwalk := walk_spell [] (⟨s⟩ : Path).bodyComponents
  rw [List.map_nil] at hwalk
  rw [Path.names_eq, Path.names_eq, hbody, hwalk, List.map_reverse]

theorem spell_intercalate (pieces : List (List Char)) :
    spell (List.intercalate ['/'] pieces) = List.intercalate ['/'] (pieces.map spell) := by
  have hslash : spell ['/'] = ['/'] := spell_ascii (by decide) []
  induction pieces with
  | nil => rfl
  | cons piece rest ih =>
    cases rest with
    | nil => rw [List.map_singleton, List.intercalate_singleton, List.intercalate_singleton]
    | cons next rest =>
      rw [List.intercalate_cons_cons, spell_append, spell_append, ih, hslash]
      simp only [List.map_cons, List.intercalate_cons_cons]

theorem normalize_ofText : (ofText s).normalize = ofText (⟨s⟩ : Path).normalize.text := by
  have habsolute : (ofText s).spelling.isAbsolute = (⟨s⟩ : Path).isAbsolute := isAbsolute_ofText s
  have hnames : (ofText s).spelling.names.map String.toList =
      ((⟨s⟩ : Path).names.map String.toList).map spell := by
    rw [names_ofText, List.map_map, List.map_map]
    exact List.map_congr_left fun name _ ↦ String.toList_ofList
  have hlead : spell (if (⟨s⟩ : Path).isAbsolute then ['/'] else []) =
      if (⟨s⟩ : Path).isAbsolute then ['/'] else [] := by
    split
    · exact spell_ascii (by decide) []
    · rfl
  have hchars : (ofText s).normalize.spelling.chars =
      (ofText (⟨s⟩ : Path).normalize.text).spelling.chars := by
    calc
      (ofText s).normalize.spelling.chars =
          (if (ofText s).spelling.isAbsolute then ['/'] else []) ++
            List.intercalate ['/'] ((ofText s).spelling.names.map String.toList) :=
        Path.chars_ofNames ..
      _ = spell (if (⟨s⟩ : Path).isAbsolute then ['/'] else []) ++
            spell (List.intercalate ['/'] ((⟨s⟩ : Path).names.map String.toList)) := by
        rw [habsolute, hnames, hlead, spell_intercalate]
      _ = spell (⟨s⟩ : Path).normalize.chars := by
        rw [← spell_append, ← Path.chars_ofNames]
        rfl
      _ = (ofText (⟨s⟩ : Path).normalize.text).spelling.chars := (chars_ofText _).symm
  exact RawPath.ext (congrArg Path.mk (String.toList_inj.1 hchars))

theorem key_ofText (case : PathCase) : (ofText s).key case = case.key ⟨s⟩ := by
  rw [key, normalize_ofText, ofText, bytes_ofBytes, Text.mended_encode]
  rfl

theorem isPlain_ofText : (ofText s).IsPlain ↔ (⟨s⟩ : Path).IsPlain := by
  rw [IsPlain, Path.IsPlain, Path.IsPlain, chars_ofText, mem_spell_iff (by decide)]
  rfl

end Texts

/-- Of bytes, too, the normal form is canonical: it starts at the root and holds no steps, it is
its own normal form, and what is joined to a path may be joined to its normal form instead, with
steps to the parent ending at the root. A path and its normal form have one key. Paths of text
without backslashes have one key, where case counts, just if they have one normal form. A path of
text has the normal form and the keys of its text. -/
theorem normal_form_canonical {p p' q : RawPath} (hp : p.isAbsolute = true)
    (hq : q.isAbsolute = false) :
    (p.normalize.isAbsolute = true ∧
      (∀ s ∈ p.normalize.spelling.segments, s ≠ ['.'] ∧ s ≠ ['.', '.']) ∧
      ∀ c ∈ p.normalize.spelling.components, c ≠ .here ∧ c ≠ .up) ∧
    p.normalize.normalize = p.normalize ∧
    ((p.join q).isAbsolute = true ∧ (p.join q).normalize = (p.normalize.join q).normalize ∧
      ∀ n, q.spelling.components = List.replicate n .up → (p.join q).normalize.spelling =
        .ofNames true (p.spelling.names.take (p.spelling.names.length - n))) ∧
    (∀ case : PathCase, p.key case = p.normalize.key case) ∧
    (p.text?.isSome → p'.text?.isSome → p.IsPlain → p'.IsPlain →
      (p.key .sensitive = p'.key .sensitive ↔ p.normalize = p'.normalize) ∧
      (p.normalize = p'.normalize ↔
        p.normalize.spelling.compare p'.normalize.spelling = .eq)) ∧
    ∀ s : String, (ofText s).normalize = ofText (⟨s⟩ : Path).normalize.text ∧
      ∀ case : PathCase, (ofText s).key case = case.key ⟨s⟩ := by
  obtain ⟨hsteps, hnormal, ⟨hjoin, hjoined, hup⟩, -, hcompare⟩ :=
    @Path.normalize_canonical p.spelling p'.spelling q.spelling hp hq
  have hnormal : p.normalize.normalize = p.normalize := RawPath.ext hnormal
  refine ⟨hsteps, hnormal, ⟨hjoin, RawPath.ext hjoined, hup⟩, fun case ↦ ?_, ?_,
    fun s ↦ ⟨normalize_ofText s, key_ofText s⟩⟩
  · rw [key, key, hnormal]
  · intro htext htext' hplain hplain'
    refine ⟨?_, RawPath.ext_iff.trans (hcompare hplain hplain').2⟩
    obtain ⟨s, hs⟩ := Option.isSome_iff_exists.1 htext
    obtain ⟨s', hs'⟩ := Option.isSome_iff_exists.1 htext'
    obtain rfl := text?_eq_some.1 hs
    obtain rfl := text?_eq_some.1 hs'
    rw [key_ofText, key_ofText, normalize_ofText, normalize_ofText,
      ((isPlain_ofText s).1 hplain).key_eq_key_iff ((isPlain_ofText s').1 hplain')]
    exact ⟨fun h ↦ congrArg (fun p : Path ↦ ofText p.text) h,
      fun h ↦ congrArg Path.mk (ofText_injective h)⟩

/-- Two spellings of a place, one with a character of several bytes in it. -/
theorem normal_form_canonical_of_steps :
    let p := ofText "//é/.//b/"
    let p' := ofText "/../é/c/../b/."
    let q := ofText "../../.."
    p.isAbsolute = true ∧ q.isAbsolute = false ∧ p.text?.isSome ∧ p'.text?.isSome ∧ p.IsPlain ∧
      p'.IsPlain ∧ q.spelling.components = List.replicate 3 .up ∧
      (p.join q).normalize.spelling = ⟨"/"⟩ ∧ p.key .sensitive = p'.key .sensitive := by
  intro p p' q
  have hp : p.isAbsolute = true := (isAbsolute_ofText _).trans (by decide)
  have hq : q.isAbsolute = false := (isAbsolute_ofText _).trans (by decide)
  have htext (s : String) : (ofText s).text?.isSome := by rw [text?_ofText]; rfl
  have hplain : p.IsPlain := (isPlain_ofText _).2 (by decide)
  have hplain' : p'.IsPlain := (isPlain_ofText _).2 (by decide)
  have hup : q.spelling.components = List.replicate 3 .up := by decide +kernel
  obtain ⟨-, -, ⟨-, -, hjoin⟩, -, hkey, hnormal⟩ := @normal_form_canonical p p' q hp hq
  have hroot : p.spelling.names.take (p.spelling.names.length - 3) = [] := by decide +kernel
  have hsame : (⟨"//é/.//b/"⟩ : Path).normalize = (⟨"/../é/c/../b/."⟩ : Path).normalize := by
    decide +kernel
  refine ⟨hp, hq, htext _, htext _, hplain, hplain', hup, ?_, ?_⟩
  · rw [hjoin 3 hup, hroot]
    rfl
  · rw [(hkey (htext _) (htext _) hplain hplain').1, (hnormal _).1, (hnormal _).1, hsame]

/-- Two paths with one key where case counts, which are in normal form and hold no backslash. -/
structure Collide (p q : RawPath) : Prop where
  ne : p ≠ q
  absolute : p.isAbsolute = true ∧ q.isAbsolute = true
  plain : p.IsPlain ∧ q.IsPlain
  normal : p.normalize = p ∧ q.normalize = q
  key : p.key .sensitive = q.key .sensitive

/-- A path that ends in a byte that no text has. -/
def stray (b : UInt8) : RawPath := ofBytes [47, 97, b]

theorem collide_stray : Collide (stray 0xFE) (stray 0xFF) where
  ne h := absurd (congrArg bytes h) (by rw [stray, stray, bytes_ofBytes, bytes_ofBytes]; decide)
  absolute := ⟨by decide, by decide⟩
  plain := ⟨by decide, by decide⟩
  normal := ⟨RawPath.ext (by decide), RawPath.ext (by decide)⟩
  key := by decide +kernel

theorem text?_stray : (stray 0xFF).text? = none := by
  rw [Option.eq_none_iff_forall_ne_some]
  intro s hs
  rw [text?, stray, bytes_ofBytes, Text.decode?_eq_some] at hs
  have hmended : Text.mended [47, 97, 0xFF] = s := by rw [← hs, Text.mended_encode]
  subst hmended
  exact absurd hs (by decide +kernel)

theorem toJson?_stray : (stray 0xFF).toJson? = none := by
  rw [toJson?, text?_stray]
  rfl

/-- Where some bytes are no text, different normal forms have one key. -/
theorem normal_form_not_canonical :
    (stray 0xFE).isAbsolute = true ∧ (stray 0xFF).isAbsolute = true ∧ (stray 0xFE).IsPlain ∧
      (stray 0xFF).IsPlain ∧ (stray 0xFE).key .sensitive = (stray 0xFF).key .sensitive ∧
      (stray 0xFE).normalize ≠ (stray 0xFF).normalize := by
  obtain ⟨hne, ⟨habsolute, habsolute'⟩, ⟨hplain, hplain'⟩, ⟨hnormal, hnormal'⟩, hkey⟩ :=
    collide_stray
  exact ⟨habsolute, habsolute', hplain, hplain', hkey, by rwa [hnormal, hnormal']⟩

end RawPath

end TypedLoader
