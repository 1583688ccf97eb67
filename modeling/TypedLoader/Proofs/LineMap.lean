import Mathlib.Data.List.Induction
import TypedLoader.LineMap
import TypedLoader.Proofs.Text.Utf8

namespace TypedLoader

namespace Text

def length8 : List Char → Nat
  | [] => 0
  | c :: s => c.utf8Size + length8 s

theorem length8_append (s t : List Char) : length8 (s ++ t) = length8 s + length8 t := by
  induction s with
  | nil => simp [length8]
  | cons c s ih => rw [List.cons_append, length8, length8, ih, Nat.add_assoc]

theorem length16_append (s t : List Char) : length16 (s ++ t) = length16 s + length16 t := by
  induction s with
  | nil => simp [length16]
  | cons c s ih => rw [List.cons_append, length16, length16, ih, Nat.add_assoc]

theorem utf8ByteSize_eq (s : String) : s.utf8ByteSize = length8 s.toList := by
  have hlist (l : List Char) : (l.flatMap String.utf8EncodeChar).length = length8 l := by
    induction l with
    | nil => rfl
    | cons c l ih =>
      rw [List.flatMap_cons, List.length_append, String.length_utf8EncodeChar, ih, length8]
  rw [← length_encode, ← hlist, ← encode_ofList, String.ofList_toList]

/-- An offset is between two characters, inside one, or past the end. -/
theorem offset_cases (s : List Char) (offset : Nat) :
    (∃ front rest, s = front ++ rest ∧ offset = length8 front) ∨
    (∃ front c rest, s = front ++ c :: rest ∧ length8 front < offset ∧
      offset < length8 front + c.utf8Size) ∨ length8 s < offset := by
  induction s generalizing offset with
  | nil =>
    rcases Nat.eq_zero_or_pos offset with rfl | h
    · exact Or.inl ⟨[], [], rfl, rfl⟩
    · exact Or.inr (Or.inr h)
  | cons c s ih =>
    rcases Nat.eq_zero_or_pos offset with rfl | hpos
    · exact Or.inl ⟨[], c :: s, rfl, rfl⟩
    rcases Nat.lt_or_ge offset c.utf8Size with hlt | hge
    · exact Or.inr (Or.inl ⟨[], c, s, rfl, hpos, by rw [length8, Nat.zero_add]; exact hlt⟩)
    rcases ih (offset - c.utf8Size) with
      ⟨front, rest, rfl, he⟩ | ⟨front, d, rest, rfl, hlt, hgt⟩ | hpast
    · exact Or.inl ⟨c :: front, rest, rfl, by rw [length8]; omega⟩
    · refine Or.inr (Or.inl ⟨c :: front, d, rest, rfl, ?_, ?_⟩) <;> rw [length8] <;> omega
    · exact Or.inr (Or.inr (by rw [length8]; omega))

end Text

/-- A line ends at a line feed, and at a carriage return that no line feed follows. -/
def EndsLine (c : Char) (rest : List Char) : Prop :=
  c = '\n' ∨ c = '\r' ∧ rest.head? ≠ some '\n'

instance (c : Char) (rest : List Char) : Decidable (EndsLine c rest) :=
  inferInstanceAs (Decidable (_ ∨ _))

namespace Position

def step (p : Position) (c : Char) (rest : List Char) : Position :=
  if EndsLine c rest then ⟨p.line + 1, 0⟩ else ⟨p.line, p.character + Text.units16 c⟩

def advance (p : Position) : (front rest : List Char) → Position
  | [], _ => p
  | c :: front, rest => (p.step c (front ++ rest)).advance front rest

theorem advance_concat (p : Position) (front rest : List Char) (c : Char) :
    p.advance (front ++ [c]) rest = (p.advance front (c :: rest)).step c rest := by
  induction front generalizing p with
  | nil => rfl
  | cons d front ih =>
    rw [List.cons_append, advance, advance, ih, List.append_assoc]
    rfl

/-- The place between two parts of a text, of which the first has been read. -/
def between (front rest : List Char) : Position := (⟨0, 0⟩ : Position).advance front rest

end Position

inductive PlaceOf (s : String) : Nat → Position → Prop
  | between {front rest : List Char} (h : s.toList = front ++ rest) :
    PlaceOf s (Text.length8 front) (.between front rest)
  | inside {front rest : List Char} {c : Char} {offset : Nat} (h : s.toList = front ++ c :: rest)
    (after : Text.length8 front < offset) (before : offset < Text.length8 front + c.utf8Size) :
    PlaceOf s offset ⟨(Position.between front (c :: rest)).line, 0⟩
  | past {offset : Nat} (h : Text.length8 s.toList < offset) :
    PlaceOf s offset (.between s.toList [])

namespace LineMap

open Text (length8 length16)

theorem startsFrom_cons (n : Nat) (c : Char) (s : List Char) : startsFrom n (c :: s) =
    (if EndsLine c s then [n + c.utf8Size] else []) ++ startsFrom (n + c.utf8Size) s := by
  by_cases hfeed : c = '\n'
  · subst hfeed
    have hend : EndsLine '\n' s := Or.inl rfl
    rw [if_pos hend, startsFrom]
    rfl
  by_cases hreturn : c = '\r'
  · subst hreturn
    cases s with
    | nil => rfl
    | cons d s =>
      by_cases hd : d = '\n'
      · subst hd
        rw [if_neg (by simp [EndsLine]), startsFrom, startsFrom]
        rfl
      · have hend : EndsLine '\r' (d :: s) := Or.inr ⟨rfl, by simpa using hd⟩
        rw [if_pos hend, startsFrom]
        · rfl
        · simpa using hd
  · rw [if_neg (by simp [EndsLine, hfeed, hreturn]), startsFrom]
    · rfl
    · exact hfeed
    · simp [hreturn]
    · exact hreturn

def breaks (n : Nat) : (front rest : List Char) → List Nat
  | [], _ => []
  | c :: front, rest =>
    (if EndsLine c (front ++ rest) then [n + c.utf8Size] else []) ++
      breaks (n + c.utf8Size) front rest

theorem startsFrom_append (n : Nat) (front rest : List Char) : startsFrom n (front ++ rest) =
    breaks n front rest ++ startsFrom (n + length8 front) rest := by
  induction front generalizing n with
  | nil => rfl
  | cons c front ih =>
    rw [List.cons_append, startsFrom_cons, ih, breaks, length8, List.append_assoc, Nat.add_assoc]

theorem breaks_concat (n : Nat) (front rest : List Char) (c : Char) :
    breaks n (front ++ [c]) rest = breaks n front (c :: rest) ++
      if EndsLine c rest then [n + (length8 front + c.utf8Size)] else [] := by
  induction front generalizing n with
  | nil => simp [breaks, length8]
  | cons d front ih =>
    rw [List.cons_append, breaks, breaks, ih, length8, List.append_assoc, List.append_assoc,
      Nat.add_assoc, Nat.add_assoc]
    rfl

theorem le_of_mem_breaks {n x : Nat} {front rest : List Char} (h : x ∈ breaks n front rest) :
    x ≤ n + length8 front := by
  induction front generalizing n with
  | nil => cases h
  | cons c front ih =>
    rw [length8]
    rcases List.mem_append.1 h with h | h
    · split at h
      · obtain rfl := List.mem_singleton.1 h
        omega
      · cases h
    · have hle := ih h
      omega

theorem lt_of_mem_startsFrom {n x : Nat} {s : List Char} (h : x ∈ startsFrom n s) : n < x := by
  induction s generalizing n with
  | nil => cases h
  | cons c s ih =>
    have hpos := c.utf8Size_pos
    rw [startsFrom_cons] at h
    rcases List.mem_append.1 h with h | h
    · split at h
      · obtain rfl := List.mem_singleton.1 h
        omega
      · cases h
    · have hlt := ih h
      omega

theorem le_of_mem_startsFrom_cons {n x : Nat} {c : Char} {s : List Char}
    (h : x ∈ startsFrom n (c :: s)) : n + c.utf8Size ≤ x := by
  rw [startsFrom_cons] at h
  rcases List.mem_append.1 h with h | h
  · split at h
    · exact Nat.le_of_eq (List.mem_singleton.1 h).symm
    · cases h
  · exact Nat.le_of_lt (lt_of_mem_startsFrom h)

theorem last_break (front rest : List Char) : ∃ before line, front = before ++ line ∧
    (0 :: breaks 0 front rest).getLast? = some (length8 before) ∧
    Position.between front rest = ⟨(breaks 0 front rest).length, length16 line⟩ := by
  induction front using List.reverseRecOn generalizing rest with
  | nil => exact ⟨[], [], rfl, rfl, rfl⟩
  | append_singleton front c ih =>
    obtain ⟨before, line, hfront, hlast, hplace⟩ := ih (c :: rest)
    have hstep : Position.between (front ++ [c]) rest =
        (Position.between front (c :: rest)).step c rest := Position.advance_concat _ front rest c
    rw [breaks_concat, hstep, hplace, Position.step]
    by_cases hend : EndsLine c rest
    · refine ⟨front ++ [c], [], (List.append_nil _).symm, ?_, ?_⟩
      · rw [if_pos hend, ← List.cons_append, List.getLast?_append, Nat.zero_add,
          Text.length8_append]
        rfl
      · rw [if_pos hend, if_pos hend, List.length_append]
        rfl
    · refine ⟨before, line ++ [c], by rw [hfront, List.append_assoc], ?_, ?_⟩
      · rw [if_neg hend, List.append_nil]
        exact hlast
      · rw [if_neg hend, if_neg hend, List.append_nil, Text.length16_append]
        rfl

theorem slice?_skip (before s : List Char) (skip take : Nat) :
    slice? (length8 before + skip) take (before ++ s) = slice? skip take s := by
  induction before with
  | nil => rw [length8, Nat.zero_add, List.nil_append]
  | cons c before ih =>
    have hpos := c.utf8Size_pos
    obtain ⟨n, hn⟩ : ∃ n, length8 (c :: before) + skip = n + 1 :=
      ⟨length8 (c :: before) + skip - 1, by rw [length8]; omega⟩
    have hle : c.utf8Size ≤ n + 1 := by rw [← hn, length8]; omega
    have hrest : n + 1 - c.utf8Size = length8 before + skip := by
      rw [← hn, length8]
      omega
    rw [hn, List.cons_append, slice?, if_pos hle, hrest, ih]
    · exact Nat.succ_ne_zero n
    · exact fun h ↦ absurd h (Nat.succ_ne_zero n)

theorem slice?_take (s rest : List Char) : slice? 0 (length8 s) (s ++ rest) = some s := by
  induction s with
  | nil => simp [length8, slice?]
  | cons c s ih =>
    have hpos := c.utf8Size_pos
    obtain ⟨n, hn⟩ : ∃ n, length8 (c :: s) = n + 1 :=
      ⟨length8 (c :: s) - 1, by rw [length8]; omega⟩
    have hle : c.utf8Size ≤ n + 1 := by rw [← hn, length8]; omega
    have hrest : n + 1 - c.utf8Size = length8 s := by
      rw [← hn, length8]
      omega
    rw [hn, List.cons_append, slice?, if_pos hle, hrest, ih]
    · rfl
    · simp

theorem slice?_inside (s rest : List Char) {c : Char} {n : Nat} (hpos : 0 < n)
    (hlt : n < c.utf8Size) : slice? 0 (length8 s + n) (s ++ c :: rest) = none := by
  induction s with
  | nil =>
    rw [length8, Nat.zero_add, List.nil_append, slice?, if_neg (Nat.not_le.2 hlt)]
    simp
    omega
  | cons d s ih =>
    obtain ⟨m, hm⟩ : ∃ m, length8 (d :: s) + n = m + 1 := ⟨length8 (d :: s) + n - 1, by omega⟩
    have hle : d.utf8Size ≤ m + 1 := by rw [← hm, length8]; omega
    have hrest : m + 1 - d.utf8Size = length8 s + n := by
      rw [← hm, length8]
      omega
    rw [hm, List.cons_append, slice?, if_pos hle, hrest, ih]
    · rfl
    · simp

theorem filter_starts (front rest : List Char) {offset : Nat} (hle : length8 front ≤ offset)
    (hlt : ∀ c s, rest = c :: s → offset < length8 front + c.utf8Size) :
    (0 :: startsFrom 0 (front ++ rest)).filter (· ≤ offset) = 0 :: breaks 0 front rest := by
  have hfront : (breaks 0 front rest).filter (· ≤ offset) = breaks 0 front rest :=
    List.filter_eq_self.2 fun x hx ↦ by
      have hx := le_of_mem_breaks hx
      exact decide_eq_true (by omega)
  have hrest : (startsFrom (0 + length8 front) rest).filter (· ≤ offset) = [] :=
    List.filter_eq_nil_iff.2 fun x hx ↦ by
      cases rest with
      | nil => cases hx
      | cons c s =>
        have hx := le_of_mem_startsFrom_cons hx
        have hlt := hlt c s rfl
        simp only [decide_eq_true_eq]
        omega
  rw [List.filter_cons_of_pos (by simp), startsFrom_append, List.filter_append, hfront, hrest,
    List.append_nil]

theorem line_ofText {s : String} {front rest : List Char} (hs : s.toList = front ++ rest)
    {offset : Nat} (hle : length8 front ≤ offset)
    (hlt : ∀ c t, rest = c :: t → offset < length8 front + c.utf8Size) :
    ∃ before line, front = before ++ line ∧
      (ofText s).lineStart? ((ofText s).lineOf offset) = some (length8 before) ∧
      Position.between front rest = ⟨(ofText s).lineOf offset, length16 line⟩ := by
  obtain ⟨before, line, hfront, hlast, hplace⟩ := last_break front rest
  have hline : (ofText s).lineOf offset = (breaks 0 front rest).length := by
    rw [lineOf, ofText, hs, filter_starts front rest hle hlt]
    rfl
  refine ⟨before, line, hfront, ?_, hline ▸ hplace⟩
  have hstarts : (ofText s).starts =
      (0 :: breaks 0 front rest) ++ startsFrom (0 + length8 front) rest := by
    rw [ofText, hs, startsFrom_append]
    rfl
  rw [lineStart?, hline, hstarts, List.getElem?_append_left (by simp), ← hlast,
    List.getLast?_eq_getElem?]
  rfl

theorem position_ofText {s : String} {before : List Char} {offset : Nat}
    (hstart : (ofText s).lineStart? ((ofText s).lineOf offset) = some (length8 before))
    {take : Nat} (hstop : min offset s.utf8ByteSize = length8 before + take) :
    (ofText s).position offset s = ⟨(ofText s).lineOf offset,
      length16 ((slice? (length8 before) take s.toList).getD [])⟩ := by
  rw [position, hstart, hstop, Option.getD_some, Nat.min_eq_left (Nat.le_add_right _ _),
    Nat.add_sub_cancel_left]

/-- Between two characters, the units of the line are those of what has been read of it. -/
theorem position_boundary {s : String} {front rest : List Char} (hs : s.toList = front ++ rest) :
    ∃ before line, front = before ++ line ∧
      (ofText s).lineStart? ((ofText s).lineOf (length8 front)) = some (length8 before) ∧
      (ofText s).position (length8 front) s =
        ⟨(ofText s).lineOf (length8 front), length16 line⟩ ∧
      (ofText s).position (length8 front) s = .between front rest := by
  obtain ⟨before, line, rfl, hstart, hplace⟩ := line_ofText hs (Nat.le_refl _)
    fun c t _ ↦ Nat.lt_add_of_pos_right c.utf8Size_pos
  have hstop : min (length8 (before ++ line)) s.utf8ByteSize = length8 before + length8 line := by
    rw [Text.utf8ByteSize_eq, hs, Text.length8_append _ rest,
      Nat.min_eq_left (Nat.le_add_right _ _), Text.length8_append]
  have hslice : slice? (length8 before) (length8 line) s.toList = some line := by
    rw [hs, List.append_assoc]
    exact (slice?_skip before (line ++ rest) 0 _).trans (slice?_take line rest)
  have hposition := position_ofText hstart hstop
  rw [hslice, Option.getD_some] at hposition
  exact ⟨before, line, rfl, hstart, hposition, hposition.trans hplace.symm⟩

theorem position_inside {s : String} {front rest : List Char} {c : Char} {offset : Nat}
    (hs : s.toList = front ++ c :: rest) (hafter : length8 front < offset)
    (hbefore : offset < length8 front + c.utf8Size) :
    (ofText s).position offset s = ⟨(Position.between front (c :: rest)).line, 0⟩ := by
  obtain ⟨before, line, rfl, hstart, hplace⟩ := line_ofText hs (Nat.le_of_lt hafter)
    fun d t h ↦ by cases h; exact hbefore
  obtain ⟨n, rfl⟩ := Nat.exists_eq_add_of_lt hafter
  have hstop : min (length8 (before ++ line) + n + 1) s.utf8ByteSize =
      length8 before + (length8 line + (n + 1)) := by
    rw [Text.utf8ByteSize_eq, hs, Text.length8_append _ (c :: rest), Text.length8_append, length8]
    omega
  have hslice : slice? (length8 before) (length8 line + (n + 1)) s.toList = none := by
    rw [hs, List.append_assoc]
    exact (slice?_skip before (line ++ c :: rest) 0 _).trans
      (slice?_inside line rest (Nat.succ_pos n) (by omega))
  rw [position_ofText hstart hstop, hslice, Option.getD_none, hplace]
  rfl

theorem position_past {s : String} {offset : Nat} (hpast : length8 s.toList < offset) :
    (ofText s).position offset s = .between s.toList [] := by
  have hs : s.toList = s.toList ++ [] := (List.append_nil _).symm
  obtain ⟨before, line, hfront, hstart, hplace⟩ := line_ofText hs (Nat.le_of_lt hpast)
    fun c t h ↦ by cases h
  have hstop : min offset s.utf8ByteSize = length8 before + length8 line := by
    rw [Text.utf8ByteSize_eq, Nat.min_eq_right (Nat.le_of_lt hpast), hfront, Text.length8_append]
  have hslice : slice? (length8 before) (length8 line) s.toList = some line := by
    rw [hs, hfront, List.append_assoc]
    exact (slice?_skip before (line ++ []) 0 _).trans (slice?_take line [])
  rw [position_ofText hstart hstop, hslice, Option.getD_some, ← hplace]

theorem placeOf_position (s : String) (offset : Nat) :
    PlaceOf s offset ((ofText s).position offset s) := by
  rcases Text.offset_cases s.toList offset with
    ⟨front, rest, hs, rfl⟩ | ⟨front, c, rest, hs, hafter, hbefore⟩ | hpast
  · obtain ⟨-, -, -, -, -, hplace⟩ := position_boundary hs
    exact hplace ▸ .between hs
  · exact position_inside hs hafter hbefore ▸ .inside hs hafter hbefore
  · exact position_past hpast ▸ .past hpast

end LineMap

end TypedLoader
