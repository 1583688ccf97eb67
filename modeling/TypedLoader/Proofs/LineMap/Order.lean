import Mathlib.Data.Prod.Lex
import Mathlib.Data.Set.Function
import TypedLoader.Proofs.LineMap

namespace TypedLoader

open Text (length8 length16 units16)

namespace Text

theorem units16_pos (c : Char) : 0 < units16 c := by
  rw [units16]
  split <;> decide

theorem units16_le (c : Char) : units16 c ≤ c.utf8Size := by
  rw [units16]
  split
  · exact c.utf8Size_pos
  · rename_i hlarge
    have hval : ¬c.val ≤ 0x7f := fun h ↦ by
      have hnat : c.toNat ≤ 0x7f := UInt32.le_iff_toNat_le.1 h
      omega
    rw [Char.utf8Size]
    split
    · contradiction
    · split
      · exact Nat.le_refl 2
      · split <;> decide

/-- The byte offsets between two characters of a text, its start and its end among them. -/
def boundaries (s : String) : Set Nat :=
  {offset | ∃ front rest, s.toList = front ++ rest ∧ offset = length8 front}

theorem boundaries_lt {s : String} {front rest front' rest' : List Char}
    (hs : s.toList = front ++ rest) (hs' : s.toList = front' ++ rest')
    (hlt : length8 front < length8 front') :
    ∃ mid, mid ≠ [] ∧ front' = front ++ mid ∧ rest = mid ++ rest' := by
  rcases List.append_eq_append_iff.1 (hs.symm.trans hs') with
    ⟨mid, hfront, hrest⟩ | ⟨mid, hfront, hrest⟩
  · refine ⟨mid, ?_, hfront, hrest⟩
    rintro rfl
    rw [hfront, List.append_nil] at hlt
    exact Nat.lt_irrefl _ hlt
  · rw [hfront, length8_append] at hlt
    omega

end Text

namespace Position

/-- Places are compared by their lines, and on one line by their characters. -/
def rank (p : Position) : ℕ ×ₗ ℕ := toLex (p.line, p.character)

theorem rank_lt_step (p : Position) (c : Char) (rest : List Char) :
    p.rank < (p.step c rest).rank := by
  have hpos := Text.units16_pos c
  rw [step, rank, rank, Prod.Lex.toLex_lt_toLex]
  split
  · exact Or.inl (Nat.lt_succ_self p.line)
  · exact Or.inr ⟨rfl, Nat.lt_add_of_pos_right hpos⟩

theorem rank_le_advance (p : Position) (front rest : List Char) :
    p.rank ≤ (p.advance front rest).rank := by
  induction front generalizing p with
  | nil => exact le_refl _
  | cons c front ih => exact (rank_lt_step p c _).le.trans (ih _)

theorem rank_lt_advance (p : Position) {front : List Char} (rest : List Char) (h : front ≠ []) :
    p.rank < (p.advance front rest).rank := by
  cases front with
  | nil => exact absurd rfl h
  | cons c front => exact (rank_lt_step p c _).trans_le (rank_le_advance _ front rest)

theorem advance_append (p : Position) (front mid rest : List Char) :
    p.advance (front ++ mid) rest = (p.advance front (mid ++ rest)).advance mid rest := by
  induction front generalizing p with
  | nil => rfl
  | cons c front ih => rw [List.cons_append, advance, advance, ih, List.append_assoc]

/-- Every character passed adds no more to line and character than it has bytes. -/
theorem advance_le (p : Position) (front rest : List Char) :
    (p.advance front rest).line + (p.advance front rest).character ≤
      p.line + p.character + length8 front := by
  induction front generalizing p with
  | nil => exact Nat.le_refl _
  | cons c front ih =>
    have hpos := c.utf8Size_pos
    have hunits := Text.units16_le c
    have hstep : (p.step c (front ++ rest)).line + (p.step c (front ++ rest)).character ≤
        p.line + p.character + c.utf8Size := by
      rw [step]
      split
      · simp only
        omega
      · simp only
        omega
    have hrest := ih (p.step c (front ++ rest))
    rw [advance, length8]
    omega

end Position

namespace LineMap

theorem pairwise_startsFrom (n : Nat) (s : List Char) : (startsFrom n s).Pairwise (· < ·) := by
  induction s generalizing n with
  | nil => exact .nil
  | cons c s ih =>
    rw [startsFrom_cons]
    split
    · exact List.pairwise_cons.2 ⟨fun x hx ↦ lt_of_mem_startsFrom hx, ih _⟩
    · exact ih _

theorem mem_startsFrom {n x : Nat} {s : List Char} : x ∈ startsFrom n s ↔
    ∃ front c rest, s = front ++ c :: rest ∧ EndsLine c rest ∧ x = n + length8 (front ++ [c]) := by
  induction s generalizing n with
  | nil => simp [startsFrom]
  | cons d s ih =>
    rw [startsFrom_cons, List.mem_append, ih]
    constructor
    · rintro (hx | ⟨front, c, rest, rfl, hend, rfl⟩)
      · split at hx
        · rename_i hend
          exact ⟨[], d, s, rfl, hend, List.mem_singleton.1 hx⟩
        · cases hx
      · exact ⟨d :: front, c, rest, rfl, hend, Nat.add_assoc ..⟩
    · rintro ⟨front, c, rest, hs, hend, rfl⟩
      cases front with
      | nil =>
        obtain ⟨rfl, rfl⟩ := List.cons.inj hs
        rw [if_pos hend]
        exact Or.inl List.mem_cons_self
      | cons _ front =>
        obtain ⟨rfl, rfl⟩ := List.cons.inj hs
        exact Or.inr ⟨front, c, rest, rfl, hend, (Nat.add_assoc ..).symm⟩

theorem pairwise_starts (s : String) : (ofText s).starts.Pairwise (· < ·) :=
  List.pairwise_cons.2 ⟨fun _ hx ↦ lt_of_mem_startsFrom hx, pairwise_startsFrom 0 _⟩

theorem mem_starts {s : String} {x : Nat} : x ∈ (ofText s).starts ↔
    x = 0 ∨ ∃ front c rest, s.toList = front ++ c :: rest ∧ EndsLine c rest ∧
      x = length8 (front ++ [c]) := by
  have hstarts := mem_startsFrom (n := 0) (x := x) (s := s.toList)
  simp only [Nat.zero_add] at hstarts
  rw [← hstarts]
  exact List.mem_cons

theorem starts_le (s : String) : ∀ x ∈ (ofText s).starts, x ≤ s.utf8ByteSize := by
  intro x hx
  rcases mem_starts.1 hx with rfl | ⟨front, c, rest, hs, -, rfl⟩
  · exact Nat.zero_le _
  · rw [Text.utf8ByteSize_eq, hs, List.append_cons front c rest, Text.length8_append _ rest]
    exact Nat.le_add_right _ _

/-- The line that a binary search comes to: the one that starts at the offset, or else the one
before the place where the offset would have to be inserted. -/
inductive Search (m : LineMap) (offset : Nat) : Nat → Prop
  | found {before after : List Nat} (h : m.starts = before ++ offset :: after) :
    Search m offset before.length
  | missed {before after : List Nat} (h : m.starts = before ++ after)
      (hbefore : ∀ x ∈ before, x < offset) (hafter : ∀ x ∈ after, offset < x) :
    Search m offset (before.length - 1)

theorem filter_le_append {offset : Nat} {before after : List Nat}
    (hbefore : ∀ x ∈ before, x ≤ offset) (hafter : ∀ x ∈ after, offset < x) :
    (before ++ after).filter (· ≤ offset) = before := by
  have hall : before.filter (· ≤ offset) = before :=
    List.filter_eq_self.2 fun x hx ↦ decide_eq_true (hbefore x hx)
  have hnone : after.filter (· ≤ offset) = [] :=
    List.filter_eq_nil_iff.2 fun x hx ↦ by simpa using hafter x hx
  rw [List.filter_append, hall, hnone, List.append_nil]

theorem Search.lineOf_eq {m : LineMap} (hm : m.starts.Pairwise (· < ·)) {offset line : Nat}
    (h : m.Search offset line) : m.lineOf offset = line := by
  cases h with
  | @found before after h =>
    rw [h, List.pairwise_append, List.pairwise_cons] at hm
    obtain ⟨-, ⟨hafter, -⟩, hbefore⟩ := hm
    have hupto : ∀ x ∈ before ++ [offset], x ≤ offset := by
      intro x hx
      rcases List.mem_append.1 hx with hx | hx
      · exact (hbefore x hx offset List.mem_cons_self).le
      · exact (List.mem_singleton.1 hx).le
    rw [lineOf, h, List.append_cons, filter_le_append hupto hafter, List.length_append]
    rfl
  | missed h hbefore hafter =>
    rw [lineOf, h, filter_le_append (fun x hx ↦ (hbefore x hx).le) hafter]

theorem lineOf_eq_countP (s : String) (offset : Nat) :
    (ofText s).lineOf offset = (ofText s).starts.countP fun x ↦ 0 < x ∧ x ≤ offset := by
  have hlater : (startsFrom 0 s.toList).countP (fun x ↦ 0 < x ∧ x ≤ offset) =
      (startsFrom 0 s.toList).countP (· ≤ offset) :=
    List.countP_congr fun x hx ↦ by simp [lt_of_mem_startsFrom hx]
  rw [lineOf, ofText, List.filter_cons_of_pos (by simp), List.countP_cons_of_neg (by simp),
    List.length_cons, Nat.add_sub_cancel, hlater, List.countP_eq_length_filter]

theorem position_lt {s : String} {offset offset' : Nat} (h : offset ∈ Text.boundaries s)
    (h' : offset' ∈ Text.boundaries s) (hlt : offset < offset') :
    ((ofText s).position offset s).rank < ((ofText s).position offset' s).rank := by
  obtain ⟨front, rest, hs, rfl⟩ := h
  obtain ⟨front', rest', hs', rfl⟩ := h'
  obtain ⟨-, -, -, -, -, hplace⟩ := position_boundary hs
  obtain ⟨-, -, -, -, -, hplace'⟩ := position_boundary hs'
  obtain ⟨mid, hmid, rfl, rfl⟩ := Text.boundaries_lt hs hs' hlt
  rw [hplace, hplace', Position.between, Position.between, Position.advance_append]
  exact Position.rank_lt_advance _ rest' hmid

theorem position_of_le {s : String} {offset : Nat} (h : s.utf8ByteSize ≤ offset) :
    (ofText s).position offset s = .between s.toList [] := by
  have hsize := Text.utf8ByteSize_eq s
  rcases Nat.lt_or_eq_of_le h with hlt | rfl
  · exact position_past (hsize ▸ hlt)
  · obtain ⟨-, -, -, -, -, hplace⟩ := position_boundary (List.append_nil s.toList).symm
    rw [hsize]
    exact hplace

theorem position_le (s : String) (offset : Nat) :
    ((ofText s).position offset s).line + ((ofText s).position offset s).character ≤
      s.utf8ByteSize := by
  have hbetween {front rest : List Char} (hs : s.toList = front ++ rest) :
      (Position.between front rest).line + (Position.between front rest).character ≤
        s.utf8ByteSize := by
    have hle : (Position.between front rest).line + (Position.between front rest).character ≤
        0 + 0 + length8 front := Position.advance_le ⟨0, 0⟩ front rest
    rw [Text.utf8ByteSize_eq, hs, Text.length8_append]
    omega
  have hplace := placeOf_position s offset
  generalize (ofText s).position offset s = p at hplace ⊢
  cases hplace with
  | between h => exact hbetween h
  | inside h => exact (Nat.le_add_right _ _).trans (hbetween h)
  | past h => exact hbetween (List.append_nil _).symm

/-- Lines start at the start of the text and behind line ends, and nowhere else. The place of a
boundary counts the lines that have started up to it and the units since then; offsets past the
end have the place of the end. A later boundary has a later place. Nothing is larger than the
text. -/
theorem position_exact (s : String) :
    (ofText s).starts.Pairwise (· < ·) ∧
    (∀ x, x ∈ (ofText s).starts ↔ x = 0 ∨ ∃ front c rest, s.toList = front ++ c :: rest ∧
      EndsLine c rest ∧ x = length8 (front ++ [c])) ∧
    (∀ offset line, (ofText s).Search offset line → (ofText s).lineOf offset = line) ∧
    (∀ front rest, s.toList = front ++ rest →
      let line := (ofText s).starts.countP fun x ↦ 0 < x ∧ x ≤ length8 front
      ∃ before text, front = before ++ text ∧
        (ofText s).lineStart? line = some (length8 before) ∧
        (ofText s).position (length8 front) s = ⟨line, length16 text⟩) ∧
    (∀ offset, s.utf8ByteSize ≤ offset →
      (ofText s).position offset s = (ofText s).position s.utf8ByteSize s) ∧
    StrictMonoOn (fun offset ↦ ((ofText s).position offset s).rank) (Text.boundaries s) ∧
    Set.InjOn ((ofText s).position · s) (Text.boundaries s) ∧
    (∀ x ∈ (ofText s).starts, x ≤ s.utf8ByteSize) ∧
    ∀ offset, ((ofText s).position offset s).line + ((ofText s).position offset s).character ≤
      s.utf8ByteSize := by
  have hmono : StrictMonoOn (fun offset ↦ ((ofText s).position offset s).rank)
      (Text.boundaries s) := fun _ h _ h' hlt ↦ position_lt h h' hlt
  refine ⟨pairwise_starts s, fun x ↦ mem_starts, fun _ _ h ↦ h.lineOf_eq (pairwise_starts s),
    ?_, ?_, hmono, ?_, starts_le s, position_le s⟩
  · intro front rest hs line
    obtain ⟨before, text, hfront, hstart, hplace, -⟩ := position_boundary hs
    rw [lineOf_eq_countP] at hstart hplace
    exact ⟨before, text, hfront, hstart, hplace⟩
  · intro offset h
    rw [position_of_le h, position_of_le (Nat.le_refl _)]
  · intro offset h offset' h' heq
    exact hmono.injOn h h' (congrArg Position.rank heq)

end LineMap

end TypedLoader
