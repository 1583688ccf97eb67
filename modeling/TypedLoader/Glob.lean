import TypedLoader.Text.Utf8
import TypedLoader.Text.Search

namespace TypedLoader

inductive Glob.Token where
  | literal (c : Char)
  | any
  | star
  | anyAbove
  | anyBelow
  | anyBetween
  | charClass (negated : Bool) (ranges : List (Char × Char))
  | oneOf (branches : List (List Glob.Token))
deriving Inhabited

/-- A pattern is compared with the bytes of a path: `*` stands for any bytes, `?` for one byte, `**/`
for any directories, `[a-z]` for one byte of a class and `{a,b}` for alternatives. -/
structure Glob where
  tokens : List Glob.Token

namespace Glob

/-- The least and greatest byte of each piece of a class. A character outside
ASCII counts as its bytes one by one; a range joins the last byte of its first
character to the first byte of its last. -/
def classBytes : List (Char × Char) → List (UInt8 × UInt8)
  | [] => []
  | (a, b) :: rest =>
    let one (c : Char) := Text.encode (String.singleton c)
    if a = b then (one a).map (fun x ↦ (x, x)) ++ classBytes rest
    else
      let front := one a
      let back := one b
      front.dropLast.map (fun x ↦ (x, x)) ++ [(front.getLastD 0, back.headD 0)] ++
        back.tail.map (fun x ↦ (x, x)) ++ classBytes rest

def suffixes : Bytes → List Bytes
  | [] => [[]]
  | b :: rest => (b :: rest) :: suffixes rest

def afterSlash : Bytes → List Bytes
  | 0x2F :: rest => [rest]
  | _ => []

mutual

def Token.isVoid : Token → Bool
  | .oneOf branches => allVoid branches
  | _ => false

def isVoid : List Token → Bool
  | [] => true
  | t :: rest => t.isVoid && isVoid rest

def allVoid : List (List Token) → Bool
  | [] => true
  | b :: rest => isVoid b && allVoid rest

end

mutual

/-- What may remain of `s` after a part of the pattern. Empty alternatives do
not count. -/
def Token.rests (s : Bytes) : Token → List Bytes
  | .literal c => (Text.stripStart? (Text.encode (String.singleton c)) s).toList
  | .any => if s.isEmpty then [] else [s.tail]
  | .star => suffixes s
  | .anyAbove => s :: (afterSlash s ++ (suffixes s).flatMap afterSlash)
  | .anyBelow => (afterSlash s).flatMap suffixes
  | .anyBetween => afterSlash s ++ (afterSlash s).flatMap fun r ↦ (suffixes r).flatMap afterSlash
  | .charClass negated ranges =>
    match s with
    | [] => []
    | b :: rest =>
      if (classBytes ranges).any (fun (x, y) ↦ x ≤ b && b ≤ y) != negated then [rest] else []
  | .oneOf branches => if allVoid branches then [s] else branchRests s branches

def restsAll (ss : List Bytes) : List Token → List Bytes
  | [] => ss
  | t :: rest => restsAll (ss.flatMap fun s ↦ t.rests s).eraseDups rest

def branchRests (s : Bytes) : List (List Token) → List Bytes
  | [] => []
  | b :: rest => (if isVoid b then [] else restsAll [s] b) ++ branchRests s rest

end

def isMatch (g : Glob) (s : String) : Bool :=
  match g.tokens with
  | [.anyAbove] => true
  | tokens => (restsAll [Text.encode s] tokens).contains []

/-- The class after its opening bracket: its ranges, and the text behind it. A
bracket or dash that comes first stands for itself, as does a dash at the end. -/
def readClass? (first inRange : Bool) (ranges : List (Char × Char)) :
    List Char → Option (List (Char × Char) × List Char)
  | [] => none
  | ']' :: rest =>
    if first then readClass? false false ((']', ']') :: ranges) rest
    else some ((if inRange then ('-', '-') :: ranges else ranges).reverse, rest)
  | c :: rest =>
    if c = '-' ∧ !first ∧ !inRange then readClass? false true ranges rest
    else if inRange then
      match ranges with
      | (low, _) :: others =>
        if c < low then none else readClass? false false ((low, c) :: others) rest
      | [] => none
    else readClass? false false ((c, c) :: ranges) rest

theorem length_of_readClass? {first inRange : Bool} {ranges result : List (Char × Char)}
    {s rest : List Char} (h : readClass? first inRange ranges s = some (result, rest)) :
    rest.length < s.length := by
  fun_induction readClass? first inRange ranges s <;> grind

/-- The alternatives under way: finished branches in reverse, and the parts of
the last branch in reverse. -/
structure Level where
  finished : List (List Token) := []
  current : List Token := []

/-- The level of the whole pattern, or of the innermost alternatives, with the
levels around it. -/
structure Reading where
  level : Level := {}
  outer : List Level := []

namespace Reading

def push (r : Reading) (t : Token) : Reading :=
  { r with level.current := t :: r.level.current }

def stars (r : Reading) : Reading := (r.push .star).push .star

def openBranches (r : Reading) : Reading := ⟨{}, r.level :: r.outer⟩

def closeBranches? (r : Reading) : Option Reading :=
  match r.outer with
  | [] => none
  | level :: outer =>
    let branches := (r.level.current.reverse :: r.level.finished).reverse
    some (Reading.push ⟨level, outer⟩ (.oneOf branches))

def nextBranch (r : Reading) : Reading :=
  { r with level := ⟨r.level.current.reverse :: r.level.finished, []⟩ }

def replaceLast (r : Reading) (t : Token) : Reading :=
  match r.level.current with
  | .anyAbove :: _ => r
  | .anyBelow :: _ => r
  | _ :: others => { r with level.current := t :: others }
  | [] => r.push t

/-- A double star, given the character before it and the text behind it. It
stands for directories only as a whole component. -/
def doubleStar (r : Reading) (before : Option Char) (s : List Char) : Reading × List Char :=
  if r.level.current.isEmpty then
    match s with
    | [] => (r.push .anyAbove, [])
    | '/' :: rest => (r.push .anyAbove, rest)
    | s => (r.stars, s)
  else
    let inBranches := !r.outer.isEmpty
    if before ≠ some '/' ∧ !(inBranches ∧ (before = some ',' ∨ before = some '\x7b')) then
      (r.stars, s)
    else
      match s with
      | [] => (r.replaceLast .anyBelow, [])
      | '/' :: rest => (r.replaceLast .anyBetween, rest)
      | c :: rest =>
        if inBranches ∧ (c = ',' ∨ c = '\x7d') then (r.replaceLast .anyBelow, c :: rest)
        else (r.stars, c :: rest)

theorem length_doubleStar (r : Reading) (before : Option Char) (s : List Char) :
    (r.doubleStar before s).2.length ≤ s.length := by
  unfold doubleStar
  grind

end Reading

def read? (r : Reading) (before : Option Char) (s : List Char) : Option Reading :=
  match s with
  | [] => some r
  | '?' :: rest => read? (r.push .any) (some '?') rest
  | '*' :: '*' :: rest =>
    have := r.length_doubleStar before rest
    read? (r.doubleStar before rest).1
      (if (r.doubleStar before rest).2.length < rest.length then some '/' else some '*')
      (r.doubleStar before rest).2
  | '*' :: rest => read? (r.push .star) (some '*') rest
  | '[' :: '!' :: rest => readNegated r rest
  | '[' :: '^' :: rest => readNegated r rest
  | '[' :: rest =>
    match h : readClass? true false [] rest with
    | none => none
    | some (ranges, after) =>
      have := length_of_readClass? h
      read? (r.push (.charClass false ranges)) (some ']') after
  | '\x7b' :: rest => read? r.openBranches (some '\x7b') rest
  | '\x7d' :: rest => (r.closeBranches?).bind fun r ↦ read? r (some '\x7d') rest
  | ',' :: rest =>
    read? (if r.outer.isEmpty then r.push (.literal ',') else r.nextBranch) (some ',') rest
  | ['\\'] => none
  | '\\' :: c :: rest => read? (r.push (.literal c)) (some c) rest
  | c :: rest => read? (r.push (.literal c)) (some c) rest
termination_by s.length
where
  readNegated (r : Reading) (rest : List Char) : Option Reading :=
    match h : readClass? true false [] rest with
    | none => none
    | some (ranges, after) =>
      have := length_of_readClass? h
      read? (r.push (.charClass true ranges)) (some ']') after
  termination_by rest.length + 1

def ofPattern? (pattern : String) : Option Glob :=
  match read? {} none pattern.toList with
  | some ⟨level, []⟩ => some ⟨level.current.reverse⟩
  | _ => none

end Glob

end TypedLoader
