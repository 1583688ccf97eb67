import TypedLoader.Binary64

namespace TypedLoader

/-- A number is an integer of 64 bits, signed or unsigned, or a finite binary
fraction. -/
inductive Json.Number where
  | int (n : Int)
  | float (x : Binary64)
deriving DecidableEq, Inhabited

inductive Json where
  | null
  | bool (b : Bool)
  | num (n : Json.Number)
  | str (s : String)
  | arr (items : List Json)
  | obj (members : List (String × Json))
deriving Inhabited

namespace Json

abbrev Object := List (String × Json)

namespace Object

def get? (o : Object) (key : String) : Option Json := o.lookup key

def has (o : Object) (key : String) : Bool := o.any (·.1 == key)

def insert : Object → String → Json → Object
  | [], key, value => [(key, value)]
  | (k, v) :: o, key, value =>
    if k == key then (k, value) :: o else (k, v) :: insert o key value

def merge (base upper : Object) : Object :=
  upper.foldl (fun o (key, value) ↦ o.insert key value) base

def ofMembers (members : List (String × Json)) : Object := merge [] members

def flag (o : Object) (key : String) : Bool :=
  match o.get? key with
  | some (.bool b) => b
  | _ => false

def erase (o : Object) (key : String) : Object := o.filter (·.1 != key)

end Object

def nat (n : Nat) : Json := .num (.int n)

def int (n : Int) : Json := .num (.int n)

def strings (l : List String) : Json := .arr (l.map .str)

def get? : Json → String → Option Json
  | .obj members, key => Object.get? members key
  | _, _ => none

def isNull : Json → Bool
  | .null => true
  | _ => false

def ofOption {α : Type} (f : α → Json) : Option α → Json
  | none => .null
  | some a => f a

def string? : Json → Option String
  | .str s => some s
  | _ => none

def bool? : Json → Option Bool
  | .bool b => some b
  | _ => none

def natBelow? (bound : Nat) : Json → Option Nat
  | .num (.int n) => if 0 ≤ n ∧ n < bound then some n.toNat else none
  | _ => none

def object? : Json → Option Object
  | .obj members => some members
  | _ => none

def list? {α : Type} (item? : Json → Option α) : Json → Option (List α)
  | .arr items => items.mapM item?
  | _ => none

def option? {α : Type} (value? : Json → Option α) : Json → Option (Option α)
  | .null => some none
  | j => (value? j).map some

/-- A name without content: the name as a string, or the single key of an
object whose value is `null`. -/
def name? : Json → Option String
  | .str s => some s
  | .obj [(key, .null)] => some key
  | _ => none

def variant? {α : Type} (alternatives : List (String × α)) (j : Json) : Option α :=
  j.name?.bind fun name ↦ alternatives.lookup name

/-- The values of the fields of a record among the members of an object, one
slot for each field. A field answers to any of its names, and a field written
twice is refused; members that are no field are left aside. -/
def slots? {α : Type} (fields : List (List String)) (members : List (String × α)) :
    Option (List (Option α)) :=
  fields.mapM fun names ↦
    match members.filter fun m ↦ names.contains m.1 with
    | [] => some none
    | [(_, value)] => some (some value)
    | _ => none

/-- The fields of a record written as an array: in order, missing ones at the
end, and none too many. -/
def slotsOfArray? {α : Type} (fields : List (List String)) (items : List α) :
    Option (List (Option α)) :=
  if fields.length < items.length then none
  else some (items.map some ++ List.replicate (fields.length - items.length) none)

def fields? (fields : List (List String)) : Json → Option (List (Option Json))
  | .obj members => slots? fields members
  | .arr items => slotsOfArray? fields items
  | _ => none

def required {α : Type} (read? : Json → Option α) (slot : Option Json) : Option α :=
  slot.bind read?

def default {α : Type} (value : α) (read? : Json → Option α) : Option Json → Option α
  | none => some value
  | some j => read? j

end Json

end TypedLoader
