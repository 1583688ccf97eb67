namespace TypedLoader.Text

variable {α : Type} [BEq α]

def stripStart? : List α → List α → Option (List α)
  | [], s => some s
  | _ :: _, [] => none
  | p :: ps, c :: s => if p == c then stripStart? ps s else none

def after? (pattern : List α) : List α → Option (List α)
  | [] => stripStart? pattern []
  | c :: s =>
    match stripStart? pattern (c :: s) with
    | some rest => some rest
    | none => after? pattern s

theorem length_of_stripStart? {p s rest : List α}
    (h : stripStart? p s = some rest) : rest.length + p.length = s.length := by
  induction p generalizing s with
  | nil =>
    obtain rfl : s = rest := by simpa [stripStart?] using h
    rfl
  | cons c p ih =>
    cases s with
    | nil => simp [stripStart?] at h
    | cons d s =>
      unfold stripStart? at h
      split at h
      · have := ih h
        simp only [List.length_cons]
        omega
      · simp at h

theorem length_of_after? {p s rest : List α}
    (h : after? p s = some rest) : rest.length + p.length ≤ s.length := by
  induction s with
  | nil =>
    have := length_of_stripStart? h
    simp only [List.length_nil] at this ⊢
    omega
  | cons c s ih =>
    unfold after? at h
    split at h
    · rename_i r hr
      have := length_of_stripStart? hr
      obtain rfl : r = rest := by simpa using h
      omega
    · have := ih h
      simp only [List.length_cons]
      omega

/-- The text before the first occurrence of `mark`, and the text after it. -/
def cutAt? (mark : α) : List α → Option (List α × List α)
  | [] => none
  | c :: s =>
    if c == mark then some ([], s)
    else (cutAt? mark s).map fun (a, b) ↦ (c :: a, b)

def splitWhere {α : Type} (mark : α → Bool) : List α → List (List α)
  | [] => [[]]
  | c :: s =>
    if mark c then [] :: splitWhere mark s
    else
      match splitWhere mark s with
      | [] => [[c]]
      | piece :: pieces => (c :: piece) :: pieces

/-- The lines of a text: each ends at a line feed, which is dropped together
with a carriage return before it. A last line without line feed is kept as it
is, and an empty one is no line. -/
def lines (s : List Char) : List (List Char) :=
  let rec close : List (List Char) → List (List Char)
    | [] => []
    | [last] => if last.isEmpty then [] else [last]
    | line :: rest => chop line :: close rest
  close (splitWhere (· == '\n') s)
where
  chop (line : List Char) : List Char :=
    match line.reverse with
    | '\r' :: front => front.reverse
    | _ => line

end TypedLoader.Text
