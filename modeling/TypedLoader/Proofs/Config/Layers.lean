import TypedLoader.Config.Loader
import TypedLoader.Proofs.Json.Objects

namespace TypedLoader.LoaderConfig

open Json (Object)

variable {α : Type} {names : List String} {o base upper : Object} {a b c : LoaderConfig}

def written (names : List String) (o : Object) : Object := o.filter fun m ↦ names.contains m.1

def Sets (names : List String) (o : Object) : Prop := written names o ≠ []

instance : Decidable (Sets names o) := inferInstanceAs (Decidable (_ ≠ []))

def slot (o : Object) (names : List String) : Option Json := (written names o).head?.map (·.2)

def Once (names : List String) (o : Object) : Prop := (written names o).length ≤ 1

theorem isSome_slot (names : List String) (o : Object) : (slot o names).isSome ↔ Sets names o := by
  rw [slot, Sets, Option.isSome_map]
  cases written names o <;> simp

theorem once_cases (h : Once names o) : written names o = [] ∨ ∃ m, written names o = [m] := by
  rw [Once] at h
  cases hw : written names o with
  | nil => exact Or.inl rfl
  | cons m rest =>
    rw [hw, List.length_cons] at h
    exact Or.inr ⟨m, congrArg (m :: ·) (List.length_eq_zero_iff.1 (by omega))⟩

theorem slots?_cons_of_once (h : Once names o) (fields : List (List String)) :
    Json.slots? (names :: fields) o = (Json.slots? fields o).map (slot o names :: ·) := by
  rw [Json.slots?, List.mapM_cons, Json.slots?, slot]
  rcases once_cases h with hw | ⟨m, hw⟩
  · rw [hw]
    rw [written] at hw
    rw [hw]
    exact (Option.map_eq_bind ..).symm
  · rw [hw]
    rw [written] at hw
    rw [hw]
    exact (Option.map_eq_bind ..).symm

theorem slots?_cons_of_not_once (h : ¬ Once names o) (fields : List (List String)) :
    Json.slots? (names :: fields) o = none := by
  rw [Json.slots?, List.mapM_cons]
  rw [Once, written] at h
  split
  · rename_i hw
    rw [hw] at h
    exact absurd (Nat.zero_le 1) h
  · rename_i hw
    rw [hw] at h
    exact absurd le_rfl h
  · rfl

theorem slots?_eq_some {fields : List (List String)} {slots : List (Option Json)} :
    Json.slots? fields o = some slots ↔
      (∀ names ∈ fields, Once names o) ∧ slots = fields.map (slot o) := by
  induction fields generalizing slots with
  | nil =>
    have hnil : Json.slots? [] o = some [] := rfl
    rw [hnil, Option.some.injEq]
    simp [eq_comm]
  | cons names fields ih =>
    rw [List.forall_mem_cons, List.map_cons]
    by_cases honce : Once names o
    · rw [slots?_cons_of_once honce, Option.map_eq_some_iff]
      simp only [ih, honce, true_and]
      constructor
      · rintro ⟨rest, ⟨hrest, rfl⟩, rfl⟩
        exact ⟨hrest, rfl⟩
      · rintro ⟨hrest, rfl⟩
        exact ⟨_, ⟨hrest, rfl⟩, rfl⟩
    · rw [slots?_cons_of_not_once honce]
      simp [honce]

structure Describes (slot : List String → Option Json) (c : LoaderConfig) : Prop where
  instanceName : Json.default "default" Json.string? (slot ["instance"]) = some c.instanceName
  context : Json.default none (Json.option? path?) (slot ["context"]) = some c.context
  projectFile : Json.default "tsconfig.json" Json.string? (slot ["configFileName"]) =
    some c.projectFile
  compilerOptions : Json.default [] Json.object? (slot ["compilerOptions"]) =
    some c.compilerOptions
  transpileOnly : Json.default false Json.bool? (slot ["transpileOnly", "useTranspileModule"]) =
    some c.transpileOnly
  forkChecker : Json.default false Json.bool? (slot ["forkChecker"]) = some c.forkChecker
  checkerCommand : Json.default none (Json.option? path?) (slot ["checkerCommand"]) =
    some c.checkerCommand
  checkerArguments : Json.default [] (Json.list? Json.string?) (slot ["checkerArgs"]) =
    some c.checkerArguments
  sendPolicy : Json.default .direct (Json.variant? SendPolicy.names) (slot ["sendPolicy"]) =
    some c.sendPolicy
  useCache : Json.default false Json.bool? (slot ["useCache"]) = some c.useCache
  cacheDirectory : Json.default ⟨".tsz-cache"⟩ path? (slot ["cacheDirectory"]) =
    some c.cacheDirectory
  useBabel : Json.default false Json.bool? (slot ["useBabel"]) = some c.useBabel
  babelOptions : Json.default .null some (slot ["babelOptions"]) = some c.babelOptions
  ignored : Json.default [] (Json.list? (Json.natBelow? UInt32.size)) (slot ["ignoreDiagnostics"]) =
    some c.ignored
  reported : Json.default [] (Json.list? Json.string?) (slot ["reportFiles"]) = some c.reported
  errorsAsWarnings : Json.default false Json.bool? (slot ["errorsAsWarnings"]) =
    some c.errorsAsWarnings
  silent : Json.default false Json.bool? (slot ["silent"]) = some c.silent
  bail : Json.default false Json.bool? (slot ["bail"]) = some c.bail
  debounceMs : Json.default 100 (Json.natBelow? UInt64.size) (slot ["debounceMs"]) =
    some c.debounceMs
  case : Json.default none (Json.option? (Json.variant? PathCase.names)) (slot ["pathCase"]) =
    some c.case

theorem default_some (d : Json) (x : Option Json) : Json.default d some x = some (x.getD d) := by
  cases x <;> rfl

theorem ofObject?_eq_some : ofObject? o = some c ↔
    (∀ names ∈ fieldNames, Once names o) ∧ Describes (slot o) c := by
  constructor
  · intro h
    rw [ofObject?] at h
    obtain ⟨slots, hslots, h⟩ := Option.bind_eq_some_iff.1 h
    obtain ⟨honce, rfl⟩ := slots?_eq_some.1 hslots
    refine ⟨honce, ?_⟩
    -- the fields are read one after the other
    obtain ⟨_, h₁, h⟩ := Option.bind_eq_some_iff.1 h
    obtain ⟨_, h₂, h⟩ := Option.bind_eq_some_iff.1 h
    obtain ⟨_, h₃, h⟩ := Option.bind_eq_some_iff.1 h
    obtain ⟨_, h₄, h⟩ := Option.bind_eq_some_iff.1 h
    obtain ⟨_, h₅, h⟩ := Option.bind_eq_some_iff.1 h
    obtain ⟨_, h₆, h⟩ := Option.bind_eq_some_iff.1 h
    obtain ⟨_, h₇, h⟩ := Option.bind_eq_some_iff.1 h
    obtain ⟨_, h₈, h⟩ := Option.bind_eq_some_iff.1 h
    obtain ⟨_, h₉, h⟩ := Option.bind_eq_some_iff.1 h
    obtain ⟨_, h₁₀, h⟩ := Option.bind_eq_some_iff.1 h
    obtain ⟨_, h₁₁, h⟩ := Option.bind_eq_some_iff.1 h
    obtain ⟨_, h₁₂, h⟩ := Option.bind_eq_some_iff.1 h
    obtain ⟨_, h₁₃, h⟩ := Option.bind_eq_some_iff.1 h
    obtain ⟨_, h₁₄, h⟩ := Option.bind_eq_some_iff.1 h
    obtain ⟨_, h₁₅, h⟩ := Option.bind_eq_some_iff.1 h
    obtain ⟨_, h₁₆, h⟩ := Option.bind_eq_some_iff.1 h
    obtain ⟨_, h₁₇, h⟩ := Option.bind_eq_some_iff.1 h
    obtain ⟨_, h₁₈, h⟩ := Option.bind_eq_some_iff.1 h
    obtain ⟨_, h₁₉, h⟩ := Option.bind_eq_some_iff.1 h
    obtain rfl := Option.some.inj h
    exact ⟨h₁, h₂, h₃, h₄, h₅, h₆, h₇, h₈, h₉, h₁₀, h₁₁, h₁₂, default_some _ _, h₁₃, h₁₄, h₁₅, h₁₆,
      h₁₇, h₁₈, h₁₉⟩
  · rintro ⟨honce, h⟩
    rw [ofObject?]
    have hbabel := Option.some.inj ((default_some _ _).symm.trans h.babelOptions)
    refine Option.bind_eq_some_iff.2 ⟨_, slots?_eq_some.2 ⟨honce, rfl⟩, ?_⟩
    refine Option.bind_eq_some_iff.2 ⟨_, h.instanceName, ?_⟩
    refine Option.bind_eq_some_iff.2 ⟨_, h.context, ?_⟩
    refine Option.bind_eq_some_iff.2 ⟨_, h.projectFile, ?_⟩
    refine Option.bind_eq_some_iff.2 ⟨_, h.compilerOptions, ?_⟩
    refine Option.bind_eq_some_iff.2 ⟨_, h.transpileOnly, ?_⟩
    refine Option.bind_eq_some_iff.2 ⟨_, h.forkChecker, ?_⟩
    refine Option.bind_eq_some_iff.2 ⟨_, h.checkerCommand, ?_⟩
    refine Option.bind_eq_some_iff.2 ⟨_, h.checkerArguments, ?_⟩
    refine Option.bind_eq_some_iff.2 ⟨_, h.sendPolicy, ?_⟩
    refine Option.bind_eq_some_iff.2 ⟨_, h.useCache, ?_⟩
    refine Option.bind_eq_some_iff.2 ⟨_, h.cacheDirectory, ?_⟩
    refine Option.bind_eq_some_iff.2 ⟨_, h.useBabel, ?_⟩
    refine Option.bind_eq_some_iff.2 ⟨_, h.ignored, ?_⟩
    refine Option.bind_eq_some_iff.2 ⟨_, h.reported, ?_⟩
    refine Option.bind_eq_some_iff.2 ⟨_, h.errorsAsWarnings, ?_⟩
    refine Option.bind_eq_some_iff.2 ⟨_, h.silent, ?_⟩
    refine Option.bind_eq_some_iff.2 ⟨_, h.bail, ?_⟩
    refine Option.bind_eq_some_iff.2 ⟨_, h.debounceMs, ?_⟩
    refine Option.bind_eq_some_iff.2 ⟨_, h.case, ?_⟩
    exact congrArg some (congrArg (fun babelOptions ↦ { c with babelOptions }) hbabel)

def layer (base upper : Object) : Object := upper.foldl (fun o (key, value) ↦ overlay o key value) base

theorem layer_cons (base upper : Object) (key : String) (value : Json) :
    layer base ((key, value) :: upper) = layer (overlay base key value) upper := rfl

def joined (key : String) (value : Json) (lower : Option Json) : Json :=
  match value, lower with
  | .obj upper, some (.obj base) =>
    if key = compilerOptionsKey then .obj (Object.merge base upper) else .obj upper
  | value, _ => value

theorem overlay_eq (o : Object) (key : String) (value : Json) :
    overlay o key value = o.insert key (joined key value (o.get? key)) := by
  unfold overlay joined
  cases value with
  | obj upper =>
    cases o.get? key with
    | none => rfl
    | some lower =>
      cases lower with
      | obj base =>
        dsimp only
        split <;> rfl
      | _ => rfl
  | _ => rfl

theorem joined_of_ne {key : String} (h : key ≠ compilerOptionsKey) (value : Json)
    (lower : Option Json) : joined key value lower = value := by
  unfold joined
  split
  · rw [if_neg h]
  · rfl

theorem written_overlay (names : List String) (o : Object) (key : String) (value : Json) :
    written names (overlay o key value) =
      if names.contains key then overlay (written names o) key value else written names o := by
  rw [overlay_eq, overlay_eq, written, Object.filter_insert names.contains]
  split
  · rename_i hc
    rw [written, Object.get?_filter hc]
  · rfl

theorem written_layer (names : List String) (base upper : Object) :
    written names (layer base upper) = layer (written names base) (written names upper) := by
  induction upper generalizing base with
  | nil => rfl
  | cons m upper ih =>
    obtain ⟨key, value⟩ := m
    have hcons : written names ((key, value) :: upper) =
        if names.contains key then (key, value) :: written names upper else written names upper :=
      List.filter_cons
    rw [layer_cons, ih, written_overlay, hcons]
    split <;> rfl

def Agree (names : List String) (base upper : Object) : Prop :=
  ∀ m ∈ written names base, ∀ n ∈ written names upper, m.1 = n.1

theorem overlay_nil (key : String) (value : Json) : overlay [] key value = [(key, value)] := by
  cases value <;> rfl

theorem overlay_self (key : String) (lower value : Json) :
    overlay [(key, lower)] key value = [(key, joined key value (some lower))] := by
  rw [overlay_eq, Object.get?_cons, if_pos rfl, Object.insert, if_pos (beq_self_eq_true key)]

theorem overlay_other {key key' : String} (h : key' ≠ key) (lower value : Json) :
    ∃ value', overlay [(key', lower)] key value = [(key', lower), (key, value')] := by
  refine ⟨joined key value (Object.get? [(key', lower)] key), ?_⟩
  rw [overlay_eq, Object.insert, if_neg (mt beq_iff_eq.1 h)]
  rfl

theorem layer_nil (h : (upper.map (·.1)).Nodup) : layer [] upper = upper := by
  suffices hall : ∀ base : Object, (base.map (·.1) ++ upper.map (·.1)).Nodup →
      layer base upper = base ++ upper from hall [] h
  clear h
  induction upper with
  | nil => exact fun base _ ↦ (List.append_nil base).symm
  | cons m upper ih =>
    obtain ⟨key, value⟩ := m
    intro base h
    have hkey : key ∉ base.map (·.1) := fun hb ↦
      (List.nodup_append.1 h).2.2 key hb key List.mem_cons_self rfl
    have hmissing : base.get? key = none := Object.get?_eq_none.2 hkey
    have hnext : ((base ++ [(key, value)]).map (·.1) ++ upper.map (·.1)).Nodup := by simpa using h
    have hjoined : joined key value none = value := by cases value <;> rfl
    rw [layer_cons, overlay_eq, hmissing, hjoined, Object.insert_of_notMem value hkey,
      ih _ hnext, List.append_assoc]
    rfl

theorem once_layer (hb : Once names base) (hu : Once names upper) :
    Once names (layer base upper) ↔ Agree names base upper := by
  rw [Once, Agree, written_layer]
  rcases once_cases hb with hbase | ⟨⟨k, v⟩, hbase⟩ <;>
    rcases once_cases hu with hupper | ⟨⟨k', v'⟩, hupper⟩ <;> rw [hbase, hupper]
  · simp [layer]
  · simp [layer, overlay_nil]
  · simp [layer]
  · rw [layer_cons, List.forall_mem_singleton, List.forall_mem_singleton]
    by_cases h : k = k'
    · subst h
      rw [overlay_self]
      simp [layer]
    · obtain ⟨value', hother⟩ := overlay_other h v v'
      rw [hother]
      simp [layer, h]

theorem slot_layer (hb : Once names base) (hu : Once names upper) (h : Agree names base upper) :
    slot (layer base upper) names =
      ((written names upper).head?.map fun m ↦ joined m.1 m.2 (slot base names)).or
        (slot base names) := by
  rw [Agree] at h
  rw [slot, slot, written_layer]
  rcases once_cases hb with hbase | ⟨⟨k, v⟩, hbase⟩ <;>
    rcases once_cases hu with hupper | ⟨⟨k', v'⟩, hupper⟩ <;> rw [hbase, hupper] at h ⊢
  · rfl
  · rw [layer_cons, overlay_eq]
    rfl
  · rfl
  · obtain rfl : k = k' := h _ List.mem_cons_self _ List.mem_cons_self
    rw [layer_cons, overlay_self]
    rfl

/-- The upper layer wins in every field but the compiler options. -/
theorem slot_layer_of_ne (hnames : compilerOptionsKey ∉ names) (hb : Once names base)
    (hu : Once names upper) (h : Agree names base upper) :
    slot (layer base upper) names = (slot upper names).or (slot base names) := by
  rw [slot_layer hb hu h, slot.eq_1 upper]
  cases hw : (written names upper).head? with
  | none => rfl
  | some m =>
    have hmem : m ∈ written names upper := List.mem_of_mem_head? hw
    have hname : m.1 ∈ names := List.contains_iff_mem.1 (List.mem_filter.1 hmem).2
    rw [Option.map_some, Option.map_some, joined_of_ne fun he ↦ hnames (he ▸ hname)]

theorem slot_layer_compilerOptions (hb : Once [compilerOptionsKey] base)
    (hu : Once [compilerOptionsKey] upper) (h : Agree [compilerOptionsKey] base upper) :
    slot (layer base upper) [compilerOptionsKey] = ((slot upper [compilerOptionsKey]).map fun j ↦
      joined compilerOptionsKey j (slot base [compilerOptionsKey])).or
        (slot base [compilerOptionsKey]) := by
  rw [slot_layer hb hu h, slot.eq_1 upper]
  cases hw : (written [compilerOptionsKey] upper).head? with
  | none => rfl
  | some m =>
    have hmem : m ∈ written [compilerOptionsKey] upper := List.mem_of_mem_head? hw
    have hname : m.1 = compilerOptionsKey :=
      List.mem_singleton.1 (List.contains_iff_mem.1 (List.mem_filter.1 hmem).2)
    rw [Option.map_some, Option.map_some, Option.map_some, hname]

def pick (upper : Object) (names : List String) (below above : α) : α :=
  if Sets names upper then above else below

/-- A configuration over another one, field by field. Compiler options that both layers set
are merged key by key. -/
def layered (base upper : Object) (a b : LoaderConfig) : LoaderConfig where
  instanceName := pick upper ["instance"] a.instanceName b.instanceName
  context := pick upper ["context"] a.context b.context
  projectFile := pick upper ["configFileName"] a.projectFile b.projectFile
  compilerOptions := pick upper ["compilerOptions"] a.compilerOptions
    (pick base ["compilerOptions"] b.compilerOptions
      (Object.merge a.compilerOptions b.compilerOptions))
  transpileOnly := pick upper ["transpileOnly", "useTranspileModule"] a.transpileOnly
    b.transpileOnly
  forkChecker := pick upper ["forkChecker"] a.forkChecker b.forkChecker
  checkerCommand := pick upper ["checkerCommand"] a.checkerCommand b.checkerCommand
  checkerArguments := pick upper ["checkerArgs"] a.checkerArguments b.checkerArguments
  sendPolicy := pick upper ["sendPolicy"] a.sendPolicy b.sendPolicy
  useCache := pick upper ["useCache"] a.useCache b.useCache
  cacheDirectory := pick upper ["cacheDirectory"] a.cacheDirectory b.cacheDirectory
  useBabel := pick upper ["useBabel"] a.useBabel b.useBabel
  babelOptions := pick upper ["babelOptions"] a.babelOptions b.babelOptions
  ignored := pick upper ["ignoreDiagnostics"] a.ignored b.ignored
  reported := pick upper ["reportFiles"] a.reported b.reported
  errorsAsWarnings := pick upper ["errorsAsWarnings"] a.errorsAsWarnings b.errorsAsWarnings
  silent := pick upper ["silent"] a.silent b.silent
  bail := pick upper ["bail"] a.bail b.bail
  debounceMs := pick upper ["debounceMs"] a.debounceMs b.debounceMs
  case := pick upper ["pathCase"] a.case b.case

theorem pick_of_none (h : slot upper names = none) (below above : α) :
    pick upper names below above = below := by
  have hsets : ¬ Sets names upper := by
    rw [← isSome_slot, h]
    exact Bool.false_ne_true
  rw [pick, if_neg hsets]

theorem pick_of_some {j : Json} (h : slot upper names = some j) (below above : α) :
    pick upper names below above = above := by
  have hsets : Sets names upper := by
    rw [← isSome_slot, h]
    rfl
  rw [pick, if_pos hsets]

theorem default_pick {d below above : α} {read? : Json → Option α}
    (hb : Json.default d read? (slot base names) = some below)
    (hu : Json.default d read? (slot upper names) = some above) :
    Json.default d read? ((slot upper names).or (slot base names)) =
      some (pick upper names below above) := by
  cases hs : slot upper names with
  | none => rw [pick_of_none hs, Option.none_or, hb]
  | some j => rw [pick_of_some hs, Option.some_or, ← hs, hu]

theorem object?_eq_some {j : Json} {members : Object} (h : j.object? = some members) :
    j = .obj members := by
  cases j with
  | obj ms => exact congrArg Json.obj (Option.some.inj h)
  | _ => cases h

theorem default_merged
    (hb : Json.default [] Json.object? (slot base names) = some a.compilerOptions)
    (hu : Json.default [] Json.object? (slot upper names) = some b.compilerOptions) :
    Json.default [] Json.object? (((slot upper names).map fun j ↦
      joined compilerOptionsKey j (slot base names)).or (slot base names)) =
      some (pick upper names a.compilerOptions (pick base names b.compilerOptions
        (Object.merge a.compilerOptions b.compilerOptions))) := by
  cases hs : slot upper names with
  | none => rw [pick_of_none hs, Option.map_none, Option.none_or, hb]
  | some above =>
    rw [hs] at hu
    rw [pick_of_some hs, Option.map_some, Option.some_or, object?_eq_some hu]
    cases ht : slot base names with
    | none =>
      rw [pick_of_none ht]
      rfl
    | some below =>
      rw [ht] at hb
      rw [pick_of_some ht, object?_eq_some hb, joined, if_pos rfl]
      rfl

/-- Where one layer writes the mode under its name, the other does not use its alias. -/
def Respelled (base upper : Object) : Prop :=
  base.has "transpileOnly" ∧ upper.has "useTranspileModule" ∨
    base.has "useTranspileModule" ∧ upper.has "transpileOnly"

instance : Decidable (Respelled base upper) := inferInstanceAs (Decidable (_ ∨ _))

theorem mem_written {m : String × Json} : m ∈ written names o ↔ m ∈ o ∧ m.1 ∈ names := by
  rw [written, List.mem_filter, List.contains_iff_mem]

theorem agree_singleton (name : String) (base upper : Object) : Agree [name] base upper := by
  intro m hm n hn
  have hm := List.mem_singleton.1 (mem_written.1 hm).2
  have hn := List.mem_singleton.1 (mem_written.1 hn).2
  exact hm.trans hn.symm

theorem has_iff {key : String} : o.has key ↔ ∃ m ∈ o, m.1 = key := by
  simp [Object.has, List.any_eq_true]

theorem agree_transpileOnly :
    Agree ["transpileOnly", "useTranspileModule"] base upper ↔ ¬ Respelled base upper := by
  simp only [Agree, Respelled, mem_written, has_iff, List.mem_cons, List.not_mem_nil, or_false]
  constructor
  · rintro h (⟨⟨m, hm, hname⟩, n, hn, hname'⟩ | ⟨⟨m, hm, hname⟩, n, hn, hname'⟩)
    · have he := h m ⟨hm, Or.inl hname⟩ n ⟨hn, Or.inr hname'⟩
      rw [hname, hname'] at he
      exact absurd he (by decide)
    · have he := h m ⟨hm, Or.inr hname⟩ n ⟨hn, Or.inl hname'⟩
      rw [hname, hname'] at he
      exact absurd he (by decide)
  · rintro h m ⟨hm, hname | hname⟩ n ⟨hn, hname' | hname'⟩
    · exact hname.trans hname'.symm
    · exact (h (Or.inl ⟨⟨m, hm, hname⟩, n, hn, hname'⟩)).elim
    · exact (h (Or.inr ⟨⟨m, hm, hname⟩, n, hn, hname'⟩)).elim
    · exact hname.trans hname'.symm

theorem agree_iff : (∀ names ∈ fieldNames, Agree names base upper) ↔ ¬ Respelled base upper := by
  rw [← agree_transpileOnly]
  constructor
  · intro h
    exact h _ (by decide)
  · intro h names hnames
    simp only [fieldNames, List.mem_cons, List.not_mem_nil, or_false] at hnames
    rcases hnames with rfl | rfl | rfl | rfl | rfl | rfl | rfl | rfl | rfl | rfl | rfl | rfl | rfl |
      rfl | rfl | rfl | rfl | rfl | rfl | rfl
    all_goals first | exact h | exact agree_singleton _ _ _

/-- The layers together describe the one configuration over the other. -/
theorem Describes.layered (ha : Describes (slot base) a) (hb : Describes (slot upper) b)
    (hbase : ∀ names ∈ fieldNames, Once names base)
    (hupper : ∀ names ∈ fieldNames, Once names upper)
    (hagree : ∀ names ∈ fieldNames, Agree names base upper) :
    Describes (slot (layer base upper)) (layered base upper a b) := by
  have hslot (names : List String) (hnames : names ∈ fieldNames) (hne : compilerOptionsKey ∉ names) :
      slot (layer base upper) names = (slot upper names).or (slot base names) :=
    slot_layer_of_ne hne (hbase names hnames) (hupper names hnames) (hagree names hnames)
  have hmem : [compilerOptionsKey] ∈ fieldNames := by decide
  have hoptions := slot_layer_compilerOptions (hbase _ hmem) (hupper _ hmem) (hagree _ hmem)
  constructor
  case compilerOptions => exact hoptions ▸ default_merged ha.compilerOptions hb.compilerOptions
  all_goals rw [hslot _ (by decide) (by decide)]
  case instanceName => exact default_pick ha.instanceName hb.instanceName
  case context => exact default_pick ha.context hb.context
  case projectFile => exact default_pick ha.projectFile hb.projectFile
  case transpileOnly => exact default_pick ha.transpileOnly hb.transpileOnly
  case forkChecker => exact default_pick ha.forkChecker hb.forkChecker
  case checkerCommand => exact default_pick ha.checkerCommand hb.checkerCommand
  case checkerArguments => exact default_pick ha.checkerArguments hb.checkerArguments
  case sendPolicy => exact default_pick ha.sendPolicy hb.sendPolicy
  case useCache => exact default_pick ha.useCache hb.useCache
  case cacheDirectory => exact default_pick ha.cacheDirectory hb.cacheDirectory
  case useBabel => exact default_pick ha.useBabel hb.useBabel
  case babelOptions => exact default_pick ha.babelOptions hb.babelOptions
  case ignored => exact default_pick ha.ignored hb.ignored
  case reported => exact default_pick ha.reported hb.reported
  case errorsAsWarnings => exact default_pick ha.errorsAsWarnings hb.errorsAsWarnings
  case silent => exact default_pick ha.silent hb.silent
  case bail => exact default_pick ha.bail hb.bail
  case debounceMs => exact default_pick ha.debounceMs hb.debounceMs
  case case => exact default_pick ha.case hb.case

theorem resolve_eq (options : Json) (query : String) : resolve options query =
    (optionsObject options).bind fun base ↦ (Query.read query).bind fun upper ↦
      match ofObject? (layer base upper) with
      | some config => .ok config
      | none => .error .badOptions := rfl

theorem resolve_eq_ok {options : Json} {query : String} (h : resolve options query = .ok c) :
    ∃ base upper, optionsObject options = .ok base ∧ Query.read query = .ok upper ∧
      ofObject? (layer base upper) = some c := by
  rw [resolve_eq] at h
  obtain ⟨base, hbase, h⟩ := bind_eq_ok h
  obtain ⟨upper, hupper, h⟩ := bind_eq_ok h
  refine ⟨base, upper, hbase, hupper, ?_⟩
  split at h
  · rename_i hconfig
    cases h
    exact hconfig
  · cases h

theorem compilerOptions_of_slot {o : Object} (h : Describes (slot o) c)
    (hs : slot o ["compilerOptions"] = none) : c.compilerOptions = [] := by
  have hoptions := h.compilerOptions
  rw [hs] at hoptions
  exact (Option.some.inj hoptions).symm

theorem Describes.get?_layered (ha : Describes (slot base) a) (hb : Describes (slot upper) b)
    (hclean : upper.Clean) (key : String) :
    (LoaderConfig.layered base upper a b).compilerOptions.get? key =
      (b.compilerOptions.get? key).or (a.compilerOptions.get? key) := by
  rw [LoaderConfig.layered]
  cases hs : slot upper ["compilerOptions"] with
  | none =>
    rw [pick_of_none hs, compilerOptions_of_slot hb hs]
    rfl
  | some above =>
    rw [pick_of_some hs]
    cases ht : slot base ["compilerOptions"] with
    | none =>
      rw [pick_of_none ht, compilerOptions_of_slot ha ht]
      exact Option.or_none.symm
    | some below =>
      have hoptions := hb.compilerOptions
      rw [hs] at hoptions
      obtain ⟨m, hm, hvalue⟩ := Option.map_eq_some_iff.1 hs
      have hmem := (mem_written.1 (List.mem_of_mem_head? hm)).1
      rw [pick_of_some ht]
      exact Object.get?_merge _
        (hclean.values m hmem _ (hvalue.trans (object?_eq_some hoptions))) key

/-- Options and a query that are both accepted by themselves are accepted together, unless
one of them has the mode under its alias and the other one under its name. Every field has
the value of the query if the query sets it and otherwise the value of the options, and
compiler options that both set are merged, those of the query winning. -/
theorem resolve_layers {options : Json} {query : String} (ha : resolve options "" = .ok a)
    (hb : resolve (.obj []) query = .ok b) :
    ∃ base upper, optionsObject options = .ok base ∧ Query.read query = .ok upper ∧
      (resolve options query =
        if Respelled base upper then .error .badOptions else .ok (layered base upper a b)) ∧
      ∀ key, (layered base upper a b).compilerOptions.get? key =
        (b.compilerOptions.get? key).or (a.compilerOptions.get? key) := by
  obtain ⟨base, empty, hbase, hempty, ha⟩ := resolve_eq_ok ha
  obtain ⟨nothing, upper, hnothing, hupper, hb⟩ := resolve_eq_ok hb
  obtain rfl : [] = empty := Except.ok.inj hempty
  obtain rfl : [] = nothing := Except.ok.inj hnothing
  have hclean := Query.clean_read hupper
  have ha : ofObject? base = some a := ha
  rw [layer_nil hclean.keys] at hb
  obtain ⟨hbase_once, hdescribes⟩ := ofObject?_eq_some.1 ha
  obtain ⟨hupper_once, hdescribes'⟩ := ofObject?_eq_some.1 hb
  refine ⟨base, upper, hbase, hupper, ?_, hdescribes.get?_layered hdescribes' hclean⟩
  have honce (names : List String) (hnames : names ∈ fieldNames) :
      Once names (layer base upper) ↔ Agree names base upper :=
    once_layer (hbase_once names hnames) (hupper_once names hnames)
  rw [resolve_eq, hbase, hupper]
  simp only [Except.bind]
  by_cases hagree : ∀ names ∈ fieldNames, Agree names base upper
  · have hconfig := ofObject?_eq_some.2 ⟨fun names hnames ↦ (honce names hnames).2
      (hagree names hnames), hdescribes.layered hdescribes' hbase_once hupper_once hagree⟩
    rw [hconfig, if_neg (agree_iff.1 hagree)]
  · rw [if_pos (not_not.1 (mt agree_iff.2 hagree))]
    cases hconfig : ofObject? (layer base upper) with
    | none => rfl
    | some c =>
      have hall := (ofObject?_eq_some.1 hconfig).1
      exact absurd (fun names hnames ↦ (honce names hnames).1 (hall names hnames)) hagree

def strictOptions : Json := .obj [("silent", .bool true), ("bail", .bool true),
  ("compilerOptions", .obj [("strict", .bool true), ("target", .nat 3)])]

def loudQuery : String := "?-silent,+errorsAsWarnings"

theorem read_loudQuery : Query.read loudQuery =
    .ok [("silent", .bool false), ("errorsAsWarnings", .bool true)] := by rfl

theorem resolve_strictOptions : resolve strictOptions "" = .ok {
    silent := true, bail := true,
    compilerOptions := [("strict", .bool true), ("target", .nat 3)] } := by rfl

theorem resolve_loudQuery : resolve (.obj []) loudQuery = .ok {
    silent := false, errorsAsWarnings := true } := by rfl

/-- What the query does not set is as in the options. -/
theorem resolve_loudQuery_over : ∃ c, resolve strictOptions loudQuery = .ok c ∧
    c.silent = false ∧ c.errorsAsWarnings = true ∧ c.bail = true ∧
    c.compilerOptions = [("strict", .bool true), ("target", .nat 3)] := by
  obtain ⟨base, upper, hbase, hupper, hresolve, -⟩ :=
    resolve_layers resolve_strictOptions resolve_loudQuery
  obtain rfl := Except.ok.inj hbase
  obtain rfl := Except.ok.inj (read_loudQuery.symm.trans hupper)
  exact ⟨_, hresolve.trans (if_neg (by decide)), rfl, rfl, rfl, rfl⟩

/-- A mode that is switched on under its name is not switched off under its alias. -/
example : resolve (.obj [("transpileOnly", .bool true)]) "?-useTranspileModule" =
    .error .badOptions := by rfl

end TypedLoader.LoaderConfig
