import TypedLoader.Dependencies.Basic

namespace TypedLoader.Memo

open Std (ExtTreeMap)

variable {α : Type}

theorem getElem?_add_of_ne {m : Memo α} {key key' : String} (name : String) (value : α)
    (h : key' ≠ key) : (Memo.add m key name value)[key']? = m[key']? := by
  rw [add, Std.ExtTreeMap.getElem?_insert, if_neg]
  intro he
  exact h (Std.LawfulEqCmp.eq_of_compare he).symm

theorem get?_add (m : Memo α) (key name name' : String) (value : α) :
    (m.add key name value).get? key name' =
      if name = name' then some value else m.get? key name' := by
  rw [get?, add, Std.ExtTreeMap.getElem?_insert_self, Option.bind_some,
    Std.ExtTreeMap.getElem?_insert]
  by_cases h : name = name'
  · rw [if_pos h, if_pos (h ▸ Std.ReflCmp.compare_self)]
  · rw [if_neg h, if_neg fun he ↦ h (Std.LawfulEqCmp.eq_of_compare he), get?]
    cases m[key]? with
    | none => exact Std.ExtTreeMap.getElem?_empty
    | some names => rfl

theorem get?_add_of_ne {m : Memo α} {key key' : String} (name name' : String) (value : α)
    (h : key' ≠ key) : (m.add key name value).get? key' name' = m.get? key' name' := by
  rw [get?, getElem?_add_of_ne name value h, get?]

theorem get?_erase (m : Memo α) (key key' name : String) :
    get? (m.erase key) key' name = if key = key' then none else m.get? key' name := by
  rw [get?, ExtTreeMap.getElem?_erase]
  by_cases h : key = key'
  · rw [if_pos h, if_pos (Std.LawfulEqCmp.compare_eq_iff_eq.2 h)]
    rfl
  · rw [if_neg h, if_neg fun he ↦ h (Std.LawfulEqCmp.eq_of_compare he), get?]

theorem getElem?_retain (keep : α → Bool) (m : Memo α) (key : String) :
    (m.retain keep)[key]? = m[key]?.map (ExtTreeMap.filter fun _ value ↦ keep value) := by
  rw [retain, ExtTreeMap.getElem?_map]

theorem get?_retain (keep : α → Bool) (m : Memo α) (key name : String) :
    (m.retain keep).get? key name = (m.get? key name).filter keep := by
  rw [get?, getElem?_retain, get?]
  cases m[key]? with
  | none => rfl
  | some names => exact ExtTreeMap.getElem?_filter'

theorem retain_erase (keep : α → Bool) (m : Memo α) (key : String) :
    retain keep (m.erase key) = (m.retain keep).erase key := by
  refine ExtTreeMap.ext_getElem? fun key' ↦ ?_
  rw [getElem?_retain, ExtTreeMap.getElem?_erase, ExtTreeMap.getElem?_erase, getElem?_retain]
  split <;> rfl

theorem retain_comm (keep keep' : α → Bool) (m : Memo α) :
    (m.retain keep).retain keep' = (m.retain keep').retain keep := by
  refine ExtTreeMap.ext_getElem? fun key ↦ ?_
  rw [getElem?_retain, getElem?_retain, getElem?_retain, getElem?_retain, Option.map_map,
    Option.map_map]
  congr 1
  refine funext fun names ↦ ExtTreeMap.ext_getElem? fun name ↦ ?_
  simp only [Function.comp_apply, ExtTreeMap.getElem?_filter', Option.filter_filter, Bool.and_comm]

end TypedLoader.Memo
