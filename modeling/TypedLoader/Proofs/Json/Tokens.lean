import TypedLoader.Json.Reader
import TypedLoader.Proofs.Json.Numeral

namespace TypedLoader.Json

/-- A value that its text carries without loss: numbers are integers of 64 bits,
the keys of an object differ, and arrays and objects nest at most `depth` deep. -/
inductive Portable : Nat → Json → Prop
  | null {depth : Nat} : Portable depth .null
  | bool {depth : Nat} (b : Bool) : Portable depth (.bool b)
  | int {depth : Nat} {n : Int} (h : Number.IsWord n) : Portable depth (.num (.int n))
  | str {depth : Nat} (s : String) : Portable depth (.str s)
  | arr {depth : Nat} {items : List Json} (h : ∀ j ∈ items, Portable depth j) :
      Portable (depth + 1) (.arr items)
  | obj {depth : Nat} {members : List (String × Json)} (keys : (members.map (·.1)).Nodup)
      (h : ∀ m ∈ members, Portable depth m.2) : Portable (depth + 1) (.obj members)

namespace Portable

attribute [simp] null bool str

@[simp] theorem nat_iff {depth n : Nat} : Portable depth (nat n) ↔ Number.IsWord n :=
  ⟨fun h ↦ by cases h with | int h => exact h, .int⟩

@[simp] theorem arr_iff {depth : Nat} {items : List Json} :
    Portable (depth + 1) (.arr items) ↔ ∀ j ∈ items, Portable depth j :=
  ⟨fun h ↦ by cases h with | arr h => exact h, .arr⟩

@[simp] theorem obj_iff {depth : Nat} {members : List (String × Json)} :
    Portable (depth + 1) (.obj members) ↔
      (members.map (·.1)).Nodup ∧ ∀ m ∈ members, Portable depth m.2 :=
  ⟨fun h ↦ by cases h with | obj keys h => exact ⟨keys, h⟩, fun h ↦ .obj h.1 h.2⟩

end Portable

def piece (c : Char) : Piece :=
  if c.toNat < 0x20 ∧ c.toNat ∉ [8, 9, 10, 12, 13] then .unit c.toNat else .char c

def pieces (s : String) : List Piece := s.toList.map piece

mutual

def tokens : Json → List Token
  | .null => [.null]
  | .bool b => [.bool b]
  | .num n => [.num n.numeral]
  | .str s => [.str (pieces s)]
  | .arr items => .openArray :: (itemTokens items ++ [.closeArray])
  | .obj members => .openObject :: (memberTokens members ++ [.closeObject])

def itemTokens : List Json → List Token
  | [] => []
  | [j] => j.tokens
  | j :: k :: rest => j.tokens ++ .comma :: itemTokens (k :: rest)

def memberTokens : List (String × Json) → List Token
  | [] => []
  | [(key, j)] => .str (pieces key) :: .colon :: j.tokens
  | (key, j) :: m :: rest =>
    .str (pieces key) :: .colon :: (j.tokens ++ .comma :: memberTokens (m :: rest))

end

namespace Lexer

def feed (l : Lexer) (s : List Char) : Option Lexer := s.foldlM step? l

theorem feed_nil (l : Lexer) : l.feed [] = some l := rfl

theorem feed_cons (l : Lexer) (c : Char) (s : List Char) :
    l.feed (c :: s) = (l.step? c).bind (feed · s) := List.foldlM_cons

theorem feed_append (l : Lexer) (s t : List Char) :
    l.feed (s ++ t) = (l.feed s).bind (feed · t) := List.foldlM_append

/-- The lexeme under way ends with any delimiter, and with the text. -/
structure Ready (l : Lexer) (tokens : List Token) : Prop where
  flush : l.flush? = some tokens
  step : ∀ c ∈ [',', ']', '}'], l.step? c = start? tokens c

theorem ready_none (tokens : List Token) : Ready ⟨tokens, .none⟩ tokens :=
  ⟨rfl, fun _ _ ↦ rfl⟩

theorem ready_word {tokens : List Token} {cs : List Char} {t : Token}
    (h : flush? ⟨tokens, .word cs⟩ = some (t :: tokens)) :
    Ready ⟨tokens, .word cs⟩ (t :: tokens) := by
  refine ⟨h, ?_⟩
  intro c hc
  have hw : ∀ c ∈ [',', ']', '}'], ¬('a' ≤ c ∧ c ≤ 'z') := by simp
  simp only [step?, if_neg (hw c hc), h, Option.bind_some]

theorem hexDigit?_hexChar {n : Nat} (h : n < 16) : Text.hexDigit? (Text.hexChar n) = some n := by
  have hall : ∀ n < 16, Text.hexDigit? (Text.hexChar n) = some n := by decide
  exact hall n h

theorem feed_unit (tokens : List Token) (s : List Piece) {n : Nat} (h : n < 0x20) :
    feed ⟨tokens, .quoted s⟩
        ['\\', 'u', '0', '0', Text.hexChar (n / 16), Text.hexChar (n % 16)] =
      some ⟨tokens, .quoted (.unit n :: s)⟩ := by
  have hzero : Text.hexDigit? '0' = some 0 := by decide
  have hhigh := hexDigit?_hexChar (n := n / 16) (by omega)
  have hlow := hexDigit?_hexChar (n := n % 16) (by omega)
  have hn : n / 16 * 16 + n % 16 = n := by omega
  simp [feed_cons, feed_nil, step?, hzero, hhigh, hlow, hn]

theorem feed_escape (tokens : List Token) (s : List Piece) (c : Char) :
    feed ⟨tokens, .quoted s⟩ (escape c) = some ⟨tokens, .quoted (piece c :: s)⟩ := by
  unfold escape
  split
  · rfl
  · rfl
  · rfl
  · rfl
  · rfl
  · rename_i hquote hslash hfeed hreturn htab
    have hne {d : Char} (h : c = d → False) : c.toNat ≠ d.toNat :=
      fun he ↦ h (Char.toNat_inj.1 he)
    have h₉ := hne htab
    have h₁₀ := hne hfeed
    have h₁₃ := hne hreturn
    simp only [Char.reduceToNat] at h₉ h₁₀ h₁₃
    split
    · rename_i h
      obtain rfl : c = Char.ofNat 8 := Char.toNat_inj.1 h
      rfl
    · rename_i h₈
      split
      · rename_i h
        obtain rfl : c = Char.ofNat 12 := Char.toNat_inj.1 h
        rfl
      · rename_i h₁₂
        split
        · rename_i hc
          have hp : piece c = .unit c.toNat := by
            simp [piece, hc, h₈, h₉, h₁₀, h₁₂, h₁₃]
          rw [feed_unit tokens s hc, hp]
        · rename_i hc
          have hp : piece c = .char c := by simp [piece, hc]
          have hq : ¬c = '"' := fun h ↦ hquote h
          have hs : ¬c = '\\' := fun h ↦ hslash h
          simp [feed_cons, feed_nil, step?, hq, hs, hc, hp]

theorem feed_escapes (tokens : List Token) (s : List Piece) (cs : List Char) :
    feed ⟨tokens, .quoted s⟩ (cs.flatMap escape) =
      some ⟨tokens, .quoted ((cs.map piece).reverse ++ s)⟩ := by
  induction cs generalizing s with
  | nil => rfl
  | cons c cs ih =>
    rw [List.flatMap_cons, feed_append, feed_escape, Option.bind_some, ih]
    simp

theorem feed_quote (tokens : List Token) (s : String) :
    feed ⟨tokens, .none⟩ (quote s) = some ⟨.str (pieces s) :: tokens, .none⟩ := by
  have hstart : step? ⟨tokens, .none⟩ '"' = some ⟨tokens, .quoted []⟩ := rfl
  rw [quote, feed_cons, hstart, Option.bind_some, feed_append, feed_escapes, Option.bind_some,
    feed_cons]
  simp [step?, feed_nil, pieces]

theorem start?_number (tokens : List Token) {c : Char} (h : c = '-' ∨ c.isDigit) :
    start? tokens c = some ⟨tokens, .number [c]⟩ := by
  have hd : c = '-' ∨ Text.isDigit c = true := h.imp_right Text.isDigit_of_isDigit
  have hn : c = '-' ∨ (48 ≤ c.toNat ∧ c.toNat ≤ 57) := by
    simpa [Char.isDigit, UInt32.le_iff_toNat_le] using h
  have hb : ¬(c = ' ' ∨ c = '\n' ∨ c = '\r' ∨ c = '\t') := by
    rintro (rfl | rfl | rfl | rfl) <;> simp at hn
  unfold start?
  split <;> first | (exfalso; simp at hn) | rw [if_neg hb, if_pos hd]

theorem isNumberChar_of_isDigit {c : Char} (h : c.isDigit) : isNumberChar c := by
  simp [isNumberChar, Text.isDigit_of_isDigit h]

theorem feed_numberChars (tokens : List Token) (acc s : List Char) (h : ∀ c ∈ s, c.isDigit) :
    feed ⟨tokens, .number acc⟩ s = some ⟨tokens, .number (s.reverse ++ acc)⟩ := by
  induction s generalizing acc with
  | nil => rfl
  | cons c s ih =>
    have hc : step? ⟨tokens, .number acc⟩ c = some ⟨tokens, .number (c :: acc)⟩ :=
      if_pos (isNumberChar_of_isDigit (h c List.mem_cons_self))
    rw [feed_cons, hc, Option.bind_some, ih _ fun d hd ↦ h d (List.mem_cons_of_mem c hd)]
    simp

theorem feed_int (tokens : List Token) (n : Int) :
    feed ⟨tokens, .none⟩ (Number.int n).chars =
      some ⟨tokens, .number (Number.int n).chars.reverse⟩ := by
  obtain ⟨c, s, hs, hc, hall⟩ : ∃ c s, (Number.int n).chars = c :: s ∧
      (c = '-' ∨ c.isDigit) ∧ ∀ d ∈ s, d.isDigit := by
    rw [Number.chars_int]
    split
    · exact ⟨'-', _, rfl, Or.inl rfl, fun d hd ↦ Numeral.isDigit_toDigits hd⟩
    · cases h : Nat.toDigits 10 n.natAbs with
      | nil => exact absurd h Nat.toDigits_ne_nil
      | cons c s =>
        have hd {d : Char} (hm : d ∈ c :: s) : d.isDigit := Numeral.isDigit_toDigits (h ▸ hm)
        exact ⟨c, s, rfl, Or.inr (hd List.mem_cons_self), fun d hm ↦ hd (List.mem_cons_of_mem c hm)⟩
  have hstep : step? ⟨tokens, .none⟩ c = some ⟨tokens, .number [c]⟩ := start?_number tokens hc
  rw [hs, feed_cons, hstep, Option.bind_some, feed_numberChars tokens [c] s hall]
  simp

theorem ready_int (tokens : List Token) (n : Int) :
    Ready ⟨tokens, .number (Number.int n).chars.reverse⟩
      (.num (Number.int n).numeral :: tokens) := by
  have hflush : flush? ⟨tokens, .number (Number.int n).chars.reverse⟩ =
      some (.num (Number.int n).numeral :: tokens) := by
    simp [flush?, Number.numeral_int, Number.ofChars?_int]
  refine ⟨hflush, ?_⟩
  intro c hc
  have hall : ([',', ']', '}'].all fun c ↦ !isNumberChar c) = true := by decide
  have hn : isNumberChar c = false := by
    simpa only [Bool.not_eq_true'] using List.all_eq_true.1 hall c hc
  simp only [step?, hn, hflush, Option.bind_some, Bool.false_eq_true, if_false]

/-- The lexer reads `s` as `read`, from between lexemes to where it is ready. -/
def Reads (s : List Char) (read : List Token) : Prop :=
  ∀ tokens, ∃ l, feed ⟨tokens, .none⟩ s = some l ∧ Ready l (read.reverse ++ tokens)

theorem reads_nil : Reads [] [] := fun tokens ↦ ⟨_, feed_nil _, ready_none tokens⟩

theorem reads_quote (s : String) : Reads (quote s) [.str (pieces s)] := fun tokens ↦
  ⟨_, feed_quote tokens s, ready_none _⟩

theorem Reads.delimiter {s t : List Char} {read rest : List Token} {c : Char} {token : Token}
    (hs : Reads s read) (hc : c ∈ [',', ']', '}'])
    (hstart : ∀ tokens, start? tokens c = some ⟨token :: tokens, .none⟩) (ht : Reads t rest) :
    Reads (s ++ c :: t) (read ++ token :: rest) := by
  intro tokens
  obtain ⟨l, hl, hready⟩ := hs tokens
  obtain ⟨l', hl', hready'⟩ := ht (token :: (read.reverse ++ tokens))
  refine ⟨l', ?_, by simpa using hready'⟩
  rw [feed_append, hl, Option.bind_some, feed_cons, hready.step c hc, hstart, Option.bind_some,
    hl']

theorem Reads.mark {s : List Char} {read : List Token} {c : Char} {token : Token}
    (hstart : ∀ tokens, start? tokens c = some ⟨token :: tokens, .none⟩) (hs : Reads s read) :
    Reads (c :: s) (token :: read) := by
  intro tokens
  obtain ⟨l, hl, hready⟩ := hs (token :: tokens)
  have hstep : step? ⟨tokens, .none⟩ c = some ⟨token :: tokens, .none⟩ := hstart tokens
  exact ⟨l, by rw [feed_cons, hstep, Option.bind_some, hl], by simpa using hready⟩

theorem Reads.member {s : List Char} {read : List Token} (key : String) (hs : Reads s read) :
    Reads (quote key ++ ':' :: s) (.str (pieces key) :: .colon :: read) := by
  intro tokens
  obtain ⟨l, hl, hready⟩ := Reads.mark (c := ':') (fun _ ↦ rfl) hs (.str (pieces key) :: tokens)
  exact ⟨l, by rw [feed_append, feed_quote, Option.bind_some, hl], by simpa using hready⟩

theorem reads_items {items : List Json} (h : ∀ j ∈ items, Reads j.chars j.tokens) :
    Reads (itemChars items) (itemTokens items) := by
  induction items with
  | nil => exact reads_nil
  | cons j rest ih =>
    have hj := h j List.mem_cons_self
    cases rest with
    | nil => simpa only [itemChars, itemTokens] using hj
    | cons k rest =>
      have hrest := ih fun i hi ↦ h i (List.mem_cons_of_mem j hi)
      simpa only [itemChars, itemTokens] using
        hj.delimiter (c := ',') (by decide) (fun _ ↦ rfl) hrest

theorem reads_members {members : List (String × Json)}
    (h : ∀ m ∈ members, Reads m.2.chars m.2.tokens) :
    Reads (memberChars members) (memberTokens members) := by
  induction members with
  | nil => exact reads_nil
  | cons m rest ih =>
    obtain ⟨key, j⟩ := m
    have hj : Reads j.chars j.tokens := h (key, j) List.mem_cons_self
    cases rest with
    | nil => simpa only [memberChars, memberTokens] using hj.member key
    | cons k rest =>
      have hrest := ih fun i hi ↦ h i (List.mem_cons_of_mem (key, j) hi)
      simpa only [memberChars, memberTokens] using
        (hj.delimiter (c := ',') (by decide) (fun _ ↦ rfl) hrest).member key

/-- The text of a portable value reads as its tokens. -/
theorem reads_chars {depth : Nat} {j : Json} (h : Portable depth j) : Reads j.chars j.tokens := by
  induction h with
  | null => exact fun tokens ↦ ⟨_, rfl, ready_word rfl⟩
  | bool b =>
    cases b with
    | true => exact fun tokens ↦ ⟨_, rfl, ready_word rfl⟩
    | false => exact fun tokens ↦ ⟨_, rfl, ready_word rfl⟩
  | @int _ n _ => exact fun tokens ↦ ⟨_, feed_int tokens n, ready_int tokens n⟩
  | str s => exact reads_quote s
  | arr _ ih =>
    have hclose := (reads_items ih).delimiter (c := ']') (by decide) (fun _ ↦ rfl) reads_nil
    exact hclose.mark (c := '[') fun _ ↦ rfl
  | obj _ _ ih =>
    have hclose := (reads_members ih).delimiter (c := '}') (by decide) (fun _ ↦ rfl) reads_nil
    exact hclose.mark (c := '{') fun _ ↦ rfl

end Lexer

theorem tokens?_chars {depth : Nat} {j : Json} (h : Portable depth j) :
    tokens? j.chars = some j.tokens := by
  obtain ⟨l, hl, hready⟩ := Lexer.reads_chars h []
  have hfeed : j.chars.foldlM Lexer.step? {} = some l := hl
  rw [tokens?, hfeed, Option.bind_some, hready.flush]
  simp

end TypedLoader.Json
