import TypedLoader.Proofs.Json.Objects
import TypedLoader.Proofs.Text.Search

namespace TypedLoader.Query

open Json (Object)

variable {o o' : Object} {key list : String} {query : String}

def body (query : String) : List Char :=
  Text.trim ((Text.stripStart? ['?'] query.toList).getD query.toList)

def isSeparator (c : Char) : Bool := c == '&' || c == ','

def pieces (query : String) : List (List Char) :=
  (Text.splitWhere isSeparator (body query)).filter (!·.isEmpty)

def PairForm (query : String) : Prop := (body query).head? ≠ some '\x7b'

instance : Decidable (PairForm query) := inferInstanceAs (Decidable (_ ≠ _))

theorem read_of_pairForm (h : PairForm query) : read query = addPairs [] (pieces query) := by
  unfold PairForm at h
  unfold read pieces
  extract_lets chars trimmed
  have hbody : body query = trimmed := rfl
  rw [hbody] at h ⊢
  clear_value trimmed
  split
  · rfl
  · exact absurd rfl h
  · rfl

theorem pair_of_cut {s front rest : List Char} (h : Text.cutAt? '=' s = some (front, rest)) :
    pair s = (decode front).bind fun key ↦ (decode rest).map fun text ↦ (key, value text) := by
  unfold pair
  rw [h]
  rfl

theorem listKey?_eq_some : listKey? key = some list ↔ key = list ++ "[]" := by
  constructor
  · intro h
    unfold listKey? at h
    split at h
    · rename_i rest hrest
      obtain rfl := Option.some.inj h
      apply String.toList_inj.1
      have hkey := congrArg List.reverse hrest
      simpa using hkey
    · cases h
  · rintro rfl
    have hreverse : (list ++ "[]").toList.reverse = ']' :: '[' :: list.toList.reverse := by simp
    simp only [listKey?, hreverse, List.reverse_reverse, String.ofList_toList]

theorem listKey?_eq_none : listKey? key = none ↔ ¬['[', ']'] <:+ key.toList := by
  rw [Option.eq_none_iff_forall_ne_some]
  constructor
  · rintro h ⟨front, hfront⟩
    apply h (String.ofList front)
    rw [listKey?_eq_some, ← String.toList_inj, ← hfront]
    simp
  · intro h list hlist
    rw [listKey?_eq_some] at hlist
    subst hlist
    exact h ⟨list.toList, by simp⟩

theorem add_of_plain (h : listKey? key = none) (o : Object) (value : Json) :
    add o key value = .ok (o.insert key value) := by
  simp only [add, h]

theorem add_of_free (h : listKey? key = some list) (hfree : o.get? list = none) (value : Json) :
    add o key value = .ok (o.insert list (.arr [value])) := by
  simp only [add, h, hfree]

theorem add_of_list {items : List Json} (h : listKey? key = some list)
    (hitems : o.get? list = some (.arr items)) (value : Json) :
    add o key value = .ok (o.insert list (.arr (items ++ [value]))) := by
  simp only [add, h, hitems]

def uses (query : String) : Except ConfigError (List (String × Json)) := (pieces query).mapM pair

def addAll (o : Object) (us : List (String × Json)) : Except ConfigError Object :=
  us.foldlM (fun o u ↦ add o u.1 u.2) o

theorem addPairs_eq_ok {ss : List (List Char)} :
    addPairs o ss = .ok o' ↔ ∃ us, ss.mapM pair = .ok us ∧ addAll o us = .ok o' := by
  induction ss generalizing o with
  | nil =>
    rw [addPairs, List.mapM_nil]
    constructor
    · intro h
      exact ⟨[], rfl, h⟩
    · rintro ⟨us, hus, h⟩
      obtain rfl := Except.ok.inj hus
      exact h
  | cons s ss ih =>
    rw [addPairs, List.mapM_cons]
    constructor
    · intro h
      obtain ⟨⟨key, value⟩, hpair, h⟩ := bind_eq_ok h
      obtain ⟨o₁, hadd, h⟩ := bind_eq_ok h
      obtain ⟨us, hus, hall⟩ := ih.1 h
      refine ⟨(key, value) :: us, ?_, ?_⟩
      · rw [hpair, hus]
        rfl
      · rw [addAll, List.foldlM_cons, hadd]
        exact hall
    · rintro ⟨us, hus, hall⟩
      obtain ⟨⟨key, value⟩, hpair, hus⟩ := bind_eq_ok hus
      obtain ⟨rest, hrest, hus⟩ := bind_eq_ok hus
      obtain rfl := Except.ok.inj hus
      rw [addAll, List.foldlM_cons] at hall
      obtain ⟨o₁, hadd, hall⟩ := bind_eq_ok hall
      rw [hpair]
      simp only [bind, Except.bind, hadd]
      exact ih.2 ⟨rest, hrest, hall⟩

theorem read_eq_ok (h : PairForm query) :
    read query = .ok o ↔ ∃ us, uses query = .ok us ∧ addAll [] us = .ok o := by
  rw [read_of_pairForm h, addPairs_eq_ok, uses]

end TypedLoader.Query
