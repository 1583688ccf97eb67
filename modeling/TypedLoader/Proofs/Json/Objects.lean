import Mathlib.Data.List.Induction
import Mathlib.Data.List.Nodup
import TypedLoader.Config.Query
import TypedLoader.Proofs.Json.RoundTrip
import TypedLoader.Proofs.Outcome

namespace TypedLoader.Json

namespace Object

variable {o base upper : Object} {key : String} {value : Json}

theorem keys_insert_of_mem (value : Json) (h : key ∈ o.map (·.1)) :
    (o.insert key value).map (·.1) = o.map (·.1) := by
  induction o with
  | nil => cases h
  | cons m o ih =>
    obtain ⟨k, v⟩ := m
    by_cases hk : k = key
    · rw [insert, if_pos (beq_iff_eq.2 hk)]
      rfl
    · rw [insert, if_neg (mt beq_iff_eq.1 hk)]
      exact congrArg (k :: ·) (ih ((List.mem_cons.1 h).resolve_left (Ne.symm hk)))

theorem nodup_insert (h : (o.map (·.1)).Nodup) (key : String) (value : Json) :
    ((o.insert key value).map (·.1)).Nodup := by
  by_cases hk : key ∈ o.map (·.1)
  · rwa [keys_insert_of_mem value hk]
  · rw [insert_of_notMem value hk, List.map_append]
    exact List.concat_eq_append ▸ h.concat hk

theorem forall_mem_insert {P : Json → Prop} (h : ∀ m ∈ o, P m.2) (key : String) (hv : P value) :
    ∀ m ∈ o.insert key value, P m.2 := by
  induction o with
  | nil => exact List.forall_mem_singleton.2 hv
  | cons m o ih =>
    obtain ⟨k, v⟩ := m
    obtain ⟨hm, ho⟩ := List.forall_mem_cons.1 h
    rw [insert]
    split
    · exact List.forall_mem_cons.2 ⟨hv, ho⟩
    · exact List.forall_mem_cons.2 ⟨hm, ih ho⟩

theorem get?_cons (k : String) (v : Json) (o : Object) (key : String) :
    get? ((k, v) :: o) key = if key = k then some v else o.get? key := by
  by_cases h : key = k
  · rw [if_pos h, get?, h, List.lookup_cons_self]
  · rw [if_neg h, get?, get?, List.lookup_cons, beq_eq_false_iff_ne.2 h]

theorem get?_eq_none : o.get? key = none ↔ key ∉ o.map (·.1) := by
  rw [get?, List.lookup_eq_none_iff, List.mem_map]
  simp only [bne_iff_ne, not_exists, not_and]
  exact ⟨fun h m hm he ↦ h m hm he.symm, fun h m hm he ↦ h m hm he.symm⟩

theorem get?_insert (o : Object) (key key' : String) (value : Json) :
    (o.insert key value).get? key' = if key' = key then some value else o.get? key' := by
  induction o with
  | nil => exact get?_cons key value [] key'
  | cons m o ih =>
    obtain ⟨k, v⟩ := m
    by_cases hk : k = key
    · rw [insert, if_pos (beq_iff_eq.2 hk), get?_cons, get?_cons, hk]
      split <;> rfl
    · rw [insert, if_neg (mt beq_iff_eq.1 hk), get?_cons, get?_cons, ih]
      by_cases hkey : key' = key
      · rw [if_neg fun h ↦ hk (h.symm.trans hkey), if_pos hkey, if_pos hkey]
      · rw [if_neg hkey, if_neg hkey]

theorem merge_cons (base upper : Object) (key : String) (value : Json) :
    merge base ((key, value) :: upper) = merge (base.insert key value) upper := rfl

theorem get?_merge (base : Object) (h : (upper.map (·.1)).Nodup) (key : String) :
    (merge base upper).get? key = (upper.get? key).or (base.get? key) := by
  induction upper generalizing base with
  | nil => rfl
  | cons m upper ih =>
    obtain ⟨k, v⟩ := m
    obtain ⟨hk, hupper⟩ := List.nodup_cons.1 h
    rw [merge_cons, ih _ hupper, get?_insert, get?_cons]
    by_cases hkey : key = k
    · rw [if_pos hkey, if_pos hkey, get?_eq_none.2 (hkey ▸ hk)]
      rfl
    · rw [if_neg hkey, if_neg hkey]

theorem nodup_merge (h : (base.map (·.1)).Nodup) (upper : Object) :
    ((merge base upper).map (·.1)).Nodup := by
  induction upper generalizing base with
  | nil => exact h
  | cons m upper ih => exact ih (nodup_insert h m.1 m.2)

theorem forall_mem_merge {P : Json → Prop} (h : ∀ m ∈ base, P m.2) (hu : ∀ m ∈ upper, P m.2) :
    ∀ m ∈ merge base upper, P m.2 := by
  induction upper generalizing base with
  | nil => exact h
  | cons m upper ih =>
    obtain ⟨hm, hupper⟩ := List.forall_mem_cons.1 hu
    exact ih (forall_mem_insert h m.1 hm) hupper

theorem ofMembers_concat (members : List (String × Json)) (m : String × Json) :
    ofMembers (members ++ [m]) = (ofMembers members).insert m.1 m.2 := by
  rw [ofMembers, merge, List.foldl_append]
  rfl

theorem keys_ofMembers (members : List (String × Json)) :
    (ofMembers members).map (·.1) = (members.map (·.1)).eraseDups := by
  induction members using List.reverseRecOn with
  | nil => rfl
  | append_singleton members m ih =>
    rw [ofMembers_concat, List.map_append, List.eraseDups_append, ← ih]
    by_cases hm : m.1 ∈ (ofMembers members).map (·.1)
    · rw [keys_insert_of_mem m.2 hm]
      rw [ih, List.mem_eraseDups] at hm
      simp [List.removeAll, hm]
    · rw [insert_of_notMem m.2 hm, List.map_append]
      rw [ih, List.mem_eraseDups] at hm
      simp [List.removeAll, hm, List.eraseDups_cons]

theorem get?_ofMembers (members : List (String × Json)) (key : String) :
    (ofMembers members).get? key = members.reverse.lookup key := by
  induction members using List.reverseRecOn with
  | nil => rfl
  | append_singleton members m ih =>
    obtain ⟨k, v⟩ := m
    rw [ofMembers_concat, get?_insert, ih, List.reverse_concat]
    exact (get?_cons k v _ key).symm

theorem filter_insert (p : String → Bool) (o : Object) (key : String) (value : Json) :
    (o.insert key value).filter (fun m ↦ p m.1) =
      if p key then insert (o.filter fun m ↦ p m.1) key value else o.filter fun m ↦ p m.1 := by
  induction o with
  | nil =>
    rw [insert, List.filter_cons, List.filter_nil]
    rfl
  | cons m o ih =>
    obtain ⟨k, v⟩ := m
    by_cases hk : k = key
    · rw [insert, if_pos (beq_iff_eq.2 hk), List.filter_cons, List.filter_cons, hk]
      split
      · rw [insert, if_pos (beq_self_eq_true key)]
      · rfl
    · rw [insert, if_neg (mt beq_iff_eq.1 hk), List.filter_cons, List.filter_cons, ih]
      dsimp only
      cases p k with
      | false => rfl
      | true =>
        rw [if_pos rfl, if_pos rfl, insert, if_neg (mt beq_iff_eq.1 hk)]
        split <;> rfl

theorem get?_filter {p : String → Bool} (h : p key = true) (o : Object) :
    get? (o.filter fun m ↦ p m.1) key = o.get? key := by
  induction o with
  | nil => rfl
  | cons m o ih =>
    obtain ⟨k, v⟩ := m
    rw [List.filter_cons, get?_cons]
    by_cases hk : key = k
    · rw [if_pos hk, if_pos (hk ▸ h), get?_cons, if_pos hk]
    · rw [if_neg hk]
      split
      · rw [get?_cons, if_neg hk, ih]
      · exact ih

end Object

def Clean (j : Json) : Prop := ∀ members, j = .obj members → (members.map (·.1)).Nodup

/-- Every key is written once, and every key of an object inside. -/
structure Object.Clean (o : Object) : Prop where
  keys : (o.map (·.1)).Nodup
  values : ∀ m ∈ o, m.2.Clean

theorem Object.clean_nil : Object.Clean [] := ⟨List.nodup_nil, by simp⟩

theorem Object.Clean.insert {o : Object} (h : o.Clean) (key : String) {value : Json}
    (hv : value.Clean) : (o.insert key value).Clean :=
  ⟨nodup_insert h.keys key value, forall_mem_insert h.values key hv⟩

theorem clean_arr (items : List Json) : (arr items).Clean := by
  intro members h
  cases h

def Plain : Json → Prop
  | .arr _ => False
  | .obj _ => False
  | _ => True

theorem Plain.ne_arr {j : Json} (h : j.Plain) (items : List Json) : j ≠ .arr items := by
  rintro rfl
  exact h

theorem Plain.clean {j : Json} (h : j.Plain) : j.Clean := by
  rintro members rfl
  exact h.elim

theorem mem_of_slots? {fields : List (List String)} {members : Object}
    {slots : List (Option Json)} (h : slots? fields members = some slots) {j : Json}
    (hj : some j ∈ slots) : ∃ m ∈ members, m.2 = j := by
  induction fields generalizing slots with
  | nil =>
    obtain rfl : [] = slots := Option.some.inj h
    cases hj
  | cons names fields ih =>
    rw [slots?, List.mapM_cons] at h
    obtain ⟨slot, hslot, h⟩ := Option.bind_eq_some_iff.1 h
    obtain ⟨rest, hrest, h⟩ := Option.bind_eq_some_iff.1 h
    obtain rfl := Option.some.inj h
    rcases List.mem_cons.1 hj with rfl | hj
    · split at hslot
      · cases hslot
      · rename_i key value hwritten
        obtain rfl := Option.some.inj (Option.some.inj hslot)
        have hmem : (key, value) ∈ members.filter fun m ↦ names.contains m.1 := by
          rw [hwritten]
          exact List.mem_singleton_self _
        exact ⟨_, List.mem_of_mem_filter hmem, rfl⟩
      · cases hslot
    · exact ih hrest hj

theorem mem_of_slotsOfArray? {fields : List (List String)} {items : List Json}
    {slots : List (Option Json)} (h : slotsOfArray? fields items = some slots) {j : Json}
    (hj : some j ∈ slots) : j ∈ items := by
  rw [slotsOfArray?] at h
  split at h
  · cases h
  · obtain rfl := Option.some.inj h
    simpa using hj

namespace Relaxed

theorem number?_ne_obj (s : List Char) (members : Object) : number? s ≠ some (.obj members) := by
  intro h
  rw [number?] at h
  split at h
  · obtain ⟨n, -, he⟩ := Option.map_eq_some_iff.1 h
    cases he
  · split at h
    · cases h
    · split at h
      · obtain ⟨x, -, he⟩ := Option.map_eq_some_iff.1 h
        cases he
      · obtain ⟨n, -, he⟩ := Option.map_eq_some_iff.1 h
        cases he

theorem members_of_value? {r : Relaxed} {members : Object} (h : r.value? = some (.obj members)) :
    ∃ ms written, r = .obj ms ∧ members? ms = some written ∧
      members = Object.ofMembers written := by
  cases r with
  | obj ms =>
    rw [value?, Option.map_eq_some_iff] at h
    obtain ⟨written, hwritten, he⟩ := h
    cases he
    exact ⟨ms, written, rfl, hwritten, rfl⟩
  | num s =>
    rw [value?] at h
    exact absurd h (number?_ne_obj s members)
  | null | bool | str | arr => simp [value?] at h

theorem clean_value? {r : Relaxed} {j : Json} (h : r.value? = some j) : j.Clean := by
  rintro members rfl
  obtain ⟨ms, written, -, -, rfl⟩ := members_of_value? h
  have hempty : (([] : Object).map (·.1)).Nodup := List.nodup_nil
  exact Object.nodup_merge hempty written

theorem clean_members? {ms : List (List Piece × Relaxed)} {members : Object}
    (h : members? ms = some members) : ∀ m ∈ members, m.2.Clean := by
  induction ms generalizing members with
  | nil =>
    rw [members?] at h
    cases h
    simp
  | cons m ms ih =>
    obtain ⟨key, r⟩ := m
    rw [members?] at h
    simp only [Option.bind_eq_bind, Option.bind_eq_some_iff, Option.pure_def,
      Option.some.injEq] at h
    obtain ⟨key', -, j, hj, js, hjs, rfl⟩ := h
    exact List.forall_mem_cons.2 ⟨clean_value? hj, ih hjs⟩

theorem clean_object {r : Relaxed} {members : Object} (h : r.value? = some (.obj members)) :
    members.Clean := by
  refine ⟨clean_value? h members rfl, ?_⟩
  obtain ⟨ms, written, -, hwritten, rfl⟩ := members_of_value? h
  exact Object.forall_mem_merge (by simp) (clean_members? hwritten)

theorem clean_items? {rs : List Relaxed} {js : List Json} (h : items? rs = some js) :
    ∀ j ∈ js, j.Clean := by
  induction rs generalizing js with
  | nil =>
    rw [items?] at h
    cases h
    simp
  | cons r rs ih =>
    rw [items?] at h
    simp only [Option.bind_eq_bind, Option.bind_eq_some_iff, Option.pure_def,
      Option.some.injEq] at h
    obtain ⟨j, hj, js, hjs, rfl⟩ := h
    exact List.forall_mem_cons.2 ⟨clean_value? hj, ih hjs⟩

theorem clean_fields? {fields : List (List String)} {r : Relaxed} {slots : List (Option Json)}
    (h : r.fields? fields = some slots) : ∀ j, some j ∈ slots → j.Clean := by
  cases r with
  | obj ms =>
    rw [fields?] at h
    obtain ⟨members, hmembers, hslots⟩ := Option.bind_eq_some_iff.1 h
    intro j hj
    obtain ⟨m, hm, rfl⟩ := mem_of_slots? hslots hj
    exact clean_members? hmembers m hm
  | arr items =>
    rw [fields?] at h
    obtain ⟨js, hjs, hslots⟩ := Option.bind_eq_some_iff.1 h
    intro j hj
    exact clean_items? hjs j (mem_of_slotsOfArray? hslots hj)
  | null | bool | str | num => cases h

end Relaxed

end TypedLoader.Json

namespace TypedLoader.Query

open Json (Object)

variable {o o' : Object} {key : String} {j : Json} {e : ConfigError}

theorem plain_value (s : String) : (value s).Plain := by
  unfold value
  split
  · trivial
  · trivial
  · trivial
  · split
    · trivial
    · split <;> trivial

theorem plain_pair {s : List Char} (h : pair s = .ok (key, j)) : j.Plain := by
  unfold pair at h
  split at h
  · obtain ⟨key', -, h⟩ := bind_eq_ok h
    obtain ⟨text, -, h⟩ := bind_eq_ok h
    cases h
    exact plain_value text
  · split at h <;>
    · obtain ⟨key', -, h⟩ := bind_eq_ok h
      cases h
      trivial

theorem clean_add (ho : o.Clean) (hj : j.Clean) (h : add o key j = .ok o') : o'.Clean := by
  rw [add] at h
  split at h
  · cases h
    exact ho.insert key hj
  · split at h
    · cases h
      exact ho.insert _ (Json.clean_arr _)
    · cases h
      exact ho.insert _ (Json.clean_arr _)
    · cases h

theorem clean_addPairs {pieces : List (List Char)} (ho : o.Clean)
    (h : addPairs o pieces = .ok o') : o'.Clean := by
  induction pieces generalizing o with
  | nil =>
    cases h
    exact ho
  | cons s rest ih =>
    rw [addPairs] at h
    obtain ⟨⟨key, j⟩, hpair, h⟩ := bind_eq_ok h
    obtain ⟨o₁, hadd, h⟩ := bind_eq_ok h
    exact ih (clean_add ho (plain_pair hpair).clean hadd) h

/-- What a query sets is set once, and so are the keys of an object in it. -/
theorem clean_read {query : String} (h : read query = .ok o) : o.Clean := by
  unfold read at h
  extract_lets chars body at h
  clear_value body
  split at h
  · cases h
    exact Object.clean_nil
  · split at h
    · rename_i members hvalue
      cases h
      obtain ⟨r, -, hr⟩ := Option.bind_eq_some_iff.1 hvalue
      exact Json.Relaxed.clean_object hr
    · cases h
  · exact clean_addPairs Object.clean_nil h

end TypedLoader.Query
