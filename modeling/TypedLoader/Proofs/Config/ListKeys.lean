import TypedLoader.Proofs.Config.Query

namespace TypedLoader.Query

open Json (Object)

variable {o o' : Object} {key : String} {us : List (String × Json)} {query : String}

def items (key : String) (us : List (String × Json)) : List Json :=
  us.filterMap fun u ↦ if listKey? u.1 = some key then some u.2 else none

def plains (key : String) (us : List (String × Json)) : List Json :=
  us.filterMap fun u ↦ if listKey? u.1 = none ∧ u.1 = key then some u.2 else none

def ListsFirst (us : List (String × Json)) : Prop :=
  us.Pairwise fun u v ↦ ¬(listKey? u.1 = none ∧ listKey? v.1 = some u.1)

theorem plain_of_mapM {ss : List (List Char)} (h : ss.mapM pair = .ok us) :
    ∀ u ∈ us, u.2.Plain := by
  induction ss generalizing us with
  | nil =>
    obtain rfl := Except.ok.inj h
    exact fun _ hu ↦ absurd hu List.not_mem_nil
  | cons s ss ih =>
    rw [List.mapM_cons] at h
    obtain ⟨⟨key, j⟩, hpair, h⟩ := bind_eq_ok h
    obtain ⟨rest, hrest, h⟩ := bind_eq_ok h
    obtain rfl := Except.ok.inj h
    exact List.forall_mem_cons.2 ⟨plain_pair hpair, ih hrest⟩

theorem items_concat (key : String) (us : List (String × Json)) (u : String × Json) :
    items key (us ++ [u]) = items key us ++ if listKey? u.1 = some key then [u.2] else [] := by
  rw [items, items, List.filterMap_append]
  by_cases h : listKey? u.1 = some key <;> simp [h]

theorem plains_concat (key : String) (us : List (String × Json)) (u : String × Json) :
    plains key (us ++ [u]) =
      plains key us ++ if listKey? u.1 = none ∧ u.1 = key then [u.2] else [] := by
  rw [plains, plains, List.filterMap_append, List.filterMap_cons, List.filterMap_nil]
  by_cases h : listKey? u.1 = none ∧ u.1 = key
  · rw [if_pos h, if_pos h]
  · rw [if_neg h, if_neg h]

theorem plains_eq_nil :
    plains key us = [] ↔ ∀ u ∈ us, ¬(listKey? u.1 = none ∧ u.1 = key) := by
  rw [plains, List.filterMap_eq_nil_iff]
  simp only [ite_eq_right_iff, reduceCtorEq, imp_false]

theorem exists_of_mem_plains {j : Json} (h : j ∈ plains key us) : ∃ u ∈ us, u.2 = j := by
  obtain ⟨u, hu, hj⟩ := List.mem_filterMap.1 h
  split at hj
  · exact ⟨u, hu, Option.some.inj hj⟩
  · cases hj

theorem listsFirst_concat {u : String × Json} : ListsFirst (us ++ [u]) ↔
    ListsFirst us ∧ ∀ list, listKey? u.1 = some list → plains list us = [] := by
  rw [ListsFirst, List.pairwise_append, ListsFirst]
  simp only [List.pairwise_singleton, List.mem_singleton, forall_eq, true_and, plains_eq_nil]
  refine and_congr_right fun _ ↦ ?_
  constructor
  · rintro h list hlist v hv ⟨hplain, rfl⟩
    exact h v hv ⟨hplain, hlist⟩
  · rintro h v hv ⟨hplain, hlist⟩
    exact h v.1 hlist v hv ⟨hplain, rfl⟩

/-- An object after the pairs `us`: a key has the last value that was given without brackets,
or else the list of those that were given with brackets. -/
def Gathers (us : List (String × Json)) (o : Object) : Prop :=
  ∀ key, o.get? key = (plains key us).getLast?.or
    (if items key us = [] then none else some (.arr (items key us)))

theorem gathers_nil : Gathers [] [] := fun _ ↦ rfl

theorem Gathers.plain {u : String × Json} (h : Gathers us o) (hu : listKey? u.1 = none) :
    Gathers (us ++ [u]) (o.insert u.1 u.2) := by
  intro key
  rw [Object.get?_insert, items_concat, plains_concat, hu]
  by_cases hkey : key = u.1
  · simp [hkey]
  · simp [hkey, Ne.symm hkey, h key]

theorem Gathers.item {u : String × Json} {list : String} (h : Gathers us o)
    (hu : listKey? u.1 = some list) (hplain : plains list us = []) :
    ∃ o', add o u.1 u.2 = .ok o' ∧ Gathers (us ++ [u]) o' := by
  have hlist := h list
  rw [hplain] at hlist
  refine ⟨o.insert list (.arr (items list us ++ [u.2])), ?_, ?_⟩
  · by_cases hitems : items list us = []
    · rw [hitems]
      exact add_of_free hu (by simpa [hitems] using hlist) u.2
    · exact add_of_list hu (by simpa [hitems] using hlist) u.2
  · intro key
    rw [Object.get?_insert, items_concat, plains_concat, hu]
    by_cases hkey : key = list
    · simp [hkey, hplain]
    · simp [hkey, Ne.symm hkey, h key]

theorem Gathers.not_item {u : String × Json} {list : String} (h : Gathers us o)
    (hv : ∀ u ∈ us, u.2.Plain) (hu : listKey? u.1 = some list)
    (hplain : plains list us ≠ []) : add o u.1 u.2 = .error (.listAndValue list) := by
  have hlist := h list
  rw [List.getLast?_eq_some_getLast hplain, Option.some_or] at hlist
  obtain ⟨v, hmem, hlast⟩ := exists_of_mem_plains (List.getLast_mem hplain)
  have hne := (hv v hmem).ne_arr
  rw [← hlast] at hlist
  unfold add
  rw [hu]
  dsimp only
  rw [hlist]
  split
  · rename_i heq
    cases heq
  · rename_i js heq
    exact absurd (Option.some.inj heq) (hne js)
  · rfl

theorem Gathers.accepts_iff {u : String × Json} (h : Gathers us o)
    (hv : ∀ u ∈ us, u.2.Plain) :
    (∃ o', add o u.1 u.2 = .ok o') ↔ ∀ list, listKey? u.1 = some list → plains list us = [] := by
  constructor
  · rintro ⟨o', hadd⟩ list hlist
    by_contra hplain
    rw [h.not_item hv hlist hplain] at hadd
    cases hadd
  · intro hfree
    cases hkey : listKey? u.1 with
    | none => exact ⟨_, add_of_plain hkey o u.2⟩
    | some list =>
      obtain ⟨o', hadd, -⟩ := h.item hkey (hfree list hkey)
      exact ⟨o', hadd⟩

theorem Gathers.add {u : String × Json} (h : Gathers us o) (hv : ∀ u ∈ us, u.2.Plain)
    (hadd : add o u.1 u.2 = .ok o') : Gathers (us ++ [u]) o' := by
  cases hkey : listKey? u.1 with
  | none =>
    rw [add_of_plain hkey] at hadd
    obtain rfl := Except.ok.inj hadd
    exact h.plain hkey
  | some list =>
    obtain ⟨o₁, hadd', hgathers⟩ := h.item hkey ((h.accepts_iff hv).1 ⟨o', hadd⟩ list hkey)
    obtain rfl := Except.ok.inj (hadd.symm.trans hadd')
    exact hgathers

theorem addAll_concat (o : Object) (us : List (String × Json)) (u : String × Json) :
    addAll o (us ++ [u]) = (addAll o us).bind fun o' ↦ Query.add o' u.1 u.2 := by
  rw [addAll, List.foldlM_append]
  refine congrArg (Except.bind _) (funext fun o' ↦ ?_)
  rw [List.foldlM_cons]
  exact bind_pure _

/-- The pairs are accepted just if no key is used with brackets after it has been used
without, and they are gathered then. -/
theorem addAll_gathers (hv : ∀ u ∈ us, u.2.Plain) :
    ((∃ o, addAll [] us = .ok o) ↔ ListsFirst us) ∧ ∀ o, addAll [] us = .ok o → Gathers us o := by
  induction us using List.reverseRecOn with
  | nil =>
    refine ⟨iff_of_true ⟨[], rfl⟩ List.Pairwise.nil, ?_⟩
    intro o ho
    obtain rfl := Except.ok.inj ho
    exact gathers_nil
  | append_singleton us u ih =>
    have hv : ∀ u ∈ us, u.2.Plain := (List.forall_mem_append.1 hv).1
    obtain ⟨haccepted, hgathers⟩ := ih hv
    rw [addAll_concat, listsFirst_concat, ← haccepted]
    refine ⟨⟨?_, ?_⟩, ?_⟩
    · rintro ⟨o, ho⟩
      obtain ⟨o₁, h₁, hadd⟩ := bind_eq_ok ho
      exact ⟨⟨o₁, h₁⟩, ((hgathers o₁ h₁).accepts_iff hv).1 ⟨o, hadd⟩⟩
    · rintro ⟨⟨o₁, h₁⟩, hfree⟩
      rw [h₁]
      exact ((hgathers o₁ h₁).accepts_iff hv).2 hfree
    · intro o ho
      obtain ⟨o₁, h₁, hadd⟩ := bind_eq_ok ho
      exact (hgathers o₁ h₁).add hv hadd

/-- A key that is used with brackets has the list of all values that are given under it so, in
their order, just if it is not used without; otherwise it has the last value that is given
without brackets, and all uses with brackets come first: a query is accepted just if its pairs
can be read and no key is used with brackets after it has been used without. -/
theorem keeps_lists (h : PairForm query) :
    ((∃ o, read query = .ok o) ↔ ∃ us, uses query = .ok us ∧ ListsFirst us) ∧
      ∀ o us, read query = .ok o → uses query = .ok us → ∀ key, items key us ≠ [] →
        (o.get? key = some (.arr (items key us)) ↔ plains key us = []) ∧
        ∀ j, (plains key us).getLast? = some j → o.get? key = some j := by
  refine ⟨?_, ?_⟩
  · constructor
    · rintro ⟨o, ho⟩
      obtain ⟨us, hus, hall⟩ := (read_eq_ok h).1 ho
      exact ⟨us, hus, (addAll_gathers (plain_of_mapM hus)).1.1 ⟨o, hall⟩⟩
    · rintro ⟨us, hus, hfirst⟩
      obtain ⟨o, hall⟩ := (addAll_gathers (plain_of_mapM hus)).1.2 hfirst
      exact ⟨o, (read_eq_ok h).2 ⟨us, hus, hall⟩⟩
  · intro o us ho hus key hitems
    obtain ⟨us', hus', hall⟩ := (read_eq_ok h).1 ho
    obtain rfl := Except.ok.inj (hus.symm.trans hus')
    have hv := plain_of_mapM hus
    have hkey := (addAll_gathers hv).2 o hall key
    rw [if_neg hitems] at hkey
    refine ⟨⟨?_, ?_⟩, ?_⟩
    · intro hlist
      by_contra hplain
      rw [List.getLast?_eq_some_getLast hplain, Option.some_or, hlist] at hkey
      obtain ⟨u, hu, hj⟩ := exists_of_mem_plains (List.getLast_mem hplain)
      exact (hv u hu).ne_arr _ (hj.trans (Option.some.inj hkey).symm)
    · intro hplain
      rw [hkey, hplain]
      rfl
    · intro j hj
      rw [hkey, hj]
      rfl

theorem keeps_lists_of_overwritten : PairForm "?list[]=a&list[]=b&list=c" ∧
    ∃ o, read "?list[]=a&list[]=b&list=c" = .ok o ∧ o.get? "list" = some (.str "c") := by
  have hform : PairForm "?list[]=a&list[]=b&list=c" := by decide
  have huses : uses "?list[]=a&list[]=b&list=c" =
      .ok [("list[]", .str "a"), ("list[]", .str "b"), ("list", .str "c")] := rfl
  obtain ⟨haccepted, hvalues⟩ := keeps_lists hform
  obtain ⟨o, ho⟩ := haccepted.2 ⟨_, huses, by unfold ListsFirst; decide⟩
  exact ⟨hform, o, ho, (hvalues o _ ho huses "list" (by decide)).2 _ rfl⟩

end TypedLoader.Query
