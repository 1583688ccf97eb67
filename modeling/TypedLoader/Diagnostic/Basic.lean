import TypedLoader.Json.Basic

namespace TypedLoader

inductive Category where
  | warning
  | error
  | suggestion
  | message
deriving DecidableEq, Inhabited

def Category.name : Category → String
  | warning => "warning"
  | error => "error"
  | suggestion => "suggestion"
  | message => "message"

def Category.names : List (String × Category) :=
  [("warning", warning), ("error", error), ("suggestion", suggestion), ("message", message)]

inductive MessageChain where
  | node (text : String) (next : List MessageChain)
deriving Inhabited

namespace MessageChain

/-- The deepest level below the headline that is rendered. -/
def maxDepth : Nat := 64

def text : MessageChain → String
  | node text _ => text

def next : MessageChain → List MessageChain
  | node _ next => next

mutual

def size : MessageChain → Nat
  | node _ next => 1 + sizeAll next

def sizeAll : List MessageChain → Nat
  | [] => 0
  | c :: rest => c.size + sizeAll rest

end

def pendingSize (stack : List (MessageChain × Nat)) : Nat := sizeAll (stack.map (·.1))

theorem sizeAll_append (l m : List MessageChain) : sizeAll (l ++ m) = sizeAll l + sizeAll m := by
  induction l with
  | nil => simp [sizeAll]
  | cons c l ih => simp [sizeAll, ih, Nat.add_assoc]

theorem pendingSize_push (text : String) (next : List MessageChain) (depth : Nat)
    (stack : List (MessageChain × Nat)) :
    pendingSize (next.map (·, depth) ++ stack) < pendingSize ((node text next, depth) :: stack) := by
  have h : (next.map (·, depth)).map (·.1) = next := by simp [Function.comp_def]
  simp only [pendingSize, List.map_append, List.map_cons, sizeAll_append, sizeAll, size]
  rw [h]
  omega

/-- Renders the trees on the stack, the top one first. Each message below the
headline starts a line, indented by two blanks for each level. -/
def render (stack : List (MessageChain × Nat)) : Option (List Char) :=
  match stack with
  | [] => some []
  | (node text next, depth) :: rest =>
    if maxDepth < depth then none
    else
      let start := if 0 < depth then '\n' :: List.replicate (2 * depth) ' ' else []
      (render (next.map (·, depth + 1) ++ rest)).map fun s ↦ start ++ text.toList ++ s
termination_by pendingSize stack
decreasing_by
  have := pendingSize_push text next (depth + 1) rest
  simpa [pendingSize] using this

def flatten? (c : MessageChain) : Option String := (render [(c, 0)]).map String.ofList

mutual

def toJson : MessageChain → Json
  | node text next =>
    match next with
    | [] => .obj [("text", .str text)]
    | _ :: _ => .obj [("text", .str text), ("next", .arr (toJsonAll next))]

def toJsonAll : List MessageChain → List Json
  | [] => []
  | c :: rest => c.toJson :: toJsonAll rest

end

end MessageChain

/-- A finding of the compiler. Offsets count bytes of the file's text; a
finding about the whole program has an empty file name. -/
structure Diagnostic where
  category : Category
  code : Nat
  file : String
  start : Nat
  length : Nat
  message : MessageChain
deriving Inhabited

def Diagnostic.hasFile (d : Diagnostic) : Bool := !d.file.isEmpty

end TypedLoader
